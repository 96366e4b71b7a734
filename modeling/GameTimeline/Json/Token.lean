import GameTimeline.Json.Spelled

namespace GameTimeline.Json

inductive Token where
  | openObject
  | closeObject
  | openArray
  | closeArray
  | colon
  | comma
  | text (s : List Char)
  | scalar (j : Spelled)

namespace Token

def splitQuoted : List Char → Option (List Char × List Char)
  | [] => none
  | '"' :: r => some ([], r)
  | '\\' :: c :: r => (splitQuoted r).map fun p => ('\\' :: c :: p.1, p.2)
  | c :: r => (splitQuoted r).map fun p => (c :: p.1, p.2)

theorem splitQuoted_length {l : List Char} :
    ∀ {s r : List Char}, splitQuoted l = some (s, r) → r.length < l.length := by
  fun_induction splitQuoted l with
  | case1 => intro s r h; cases h
  | case2 r => intro s t h; cases h; simp
  | case3 c r ih =>
      intro s t h
      obtain ⟨p, hp, he⟩ := Option.map_eq_some_iff.1 h
      cases he
      have := ih hp
      simp only [List.length_cons]
      omega
  | case4 c r _ _ ih =>
      intro s t h
      obtain ⟨p, hp, he⟩ := Option.map_eq_some_iff.1 h
      cases he
      have := ih hp
      simp only [List.length_cons]
      omega

def digits (l : List Char) : List Char := l.takeWhile Char.isDigit

def afterDigits (l : List Char) : List Char := l.dropWhile Char.isDigit

def whole? : List Char → Option (List Char × List Char)
  | '0' :: r => some (['0'], r)
  | l => if (digits l).isEmpty then none else some (digits l, afterDigits l)

def fraction? : List Char → Option (Option (List Char) × List Char)
  | '.' :: r => if (digits r).isEmpty then none else some (some (digits r), afterDigits r)
  | l => some (none, l)

def exponentDigits? (negative : Bool) (l : List Char) : Option (Option (Bool × List Char)) :=
  if l.isEmpty ∨ ¬ l.all Char.isDigit then none else some (some (negative, l))

def exponent? : List Char → Option (Option (Bool × List Char))
  | [] => some none
  | c :: r =>
      if c = 'e' ∨ c = 'E' then
        match r with
        | '+' :: r => exponentDigits? false r
        | '-' :: r => exponentDigits? true r
        | r => exponentDigits? false r
      else none

def numeral? (l : List Char) : Option Numeral := do
  let (negative, l) := match l with
    | '-' :: r => (true, r)
    | r => (false, r)
  let (whole, l) ← whole? l
  let (fraction, l) ← fraction? l
  let exponent ← exponent? l
  pure ⟨negative, whole, fraction, exponent⟩

def isSpace (c : Char) : Bool := c = ' ' || c = '\n' || c = '\t' || c = '\r'

def isWordChar (c : Char) : Bool := c.isAlphanum || c = '+' || c = '-' || c = '.'

def word? (w : List Char) : Option Spelled :=
  if w = ['n', 'u', 'l', 'l'] then some .null
  else if w = ['t', 'r', 'u', 'e'] then some (.bool true)
  else if w = ['f', 'a', 'l', 's', 'e'] then some (.bool false)
  else (numeral? w).map .num

def mark? : Char → Option Token
  | '{' => some .openObject
  | '}' => some .closeObject
  | '[' => some .openArray
  | ']' => some .closeArray
  | ':' => some .colon
  | ',' => some .comma
  | _ => none

def scan (l : List Char) : Option (List Token) :=
  match l with
  | [] => some []
  | c :: r =>
      if isSpace c then scan r
      else if c = '"' then
        match _h : splitQuoted r with
        | none => none
        | some (s, rest) => if Spelled.isEscaped s then (scan rest).map (.text s :: ·) else none
      else
        match mark? c with
        | some t => (scan r).map (t :: ·)
        | none => do
            let j ← word? (c :: r.takeWhile isWordChar)
            (scan (r.dropWhile isWordChar)).map (.scalar j :: ·)
termination_by l.length
decreasing_by
  · simp
  · have := splitQuoted_length _h
    simp only [List.length_cons]
    omega
  · simp
  · have := (List.dropWhile_sublist isWordChar (l := r)).length_le
    simp only [List.length_cons]
    omega

end Token

end GameTimeline.Json
