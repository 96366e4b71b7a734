import GameTimeline.Json.Number
import GameTimeline.Text.Hex

namespace GameTimeline.Json

def escapeChar (c : Char) : List Char :=
  if c = '"' then ['\\', '"']
  else if c = '\\' then ['\\', '\\']
  else if c = '\x08' then ['\\', 'b']
  else if c = '\x0c' then ['\\', 'f']
  else if c = '\n' then ['\\', 'n']
  else if c = '\r' then ['\\', 'r']
  else if c = '\t' then ['\\', 't']
  else if c.toNat < 0x20 then '\\' :: 'u' :: Text.hexPadded 4 c.toNat
  else [c]

def quoted (s : String) : List Char := '"' :: s.toList.flatMap escapeChar ++ ['"']

def literal (b : Bool) : List Char :=
  if b then ['t', 'r', 'u', 'e'] else ['f', 'a', 'l', 's', 'e']

mutual

def chars : Json → List Char
  | .null => ['n', 'u', 'l', 'l']
  | .bool b => literal b
  | .num n => n.chars
  | .str s => quoted s
  | .arr [] => ['[', ']']
  | .arr (x :: r) => '[' :: (x.chars ++ itemChars r)
  | .obj [] => ['{', '}']
  | .obj ((k, x) :: r) => '{' :: (quoted k ++ ':' :: (x.chars ++ memberChars r))

def itemChars : List Json → List Char
  | [] => [']']
  | x :: r => ',' :: (x.chars ++ itemChars r)

def memberChars : List (String × Json) → List Char
  | [] => ['}']
  | (k, x) :: r => ',' :: (quoted k ++ ':' :: (x.chars ++ memberChars r))

end

def compact (j : Json) : String := String.ofList j.chars

def newline (depth : Nat) : List Char := '\n' :: List.replicate (2 * depth) ' '

mutual

def prettyChars (depth : Nat) : Json → List Char
  | .null => ['n', 'u', 'l', 'l']
  | .bool b => literal b
  | .num n => n.chars
  | .str s => quoted s
  | .arr [] => ['[', ']']
  | .arr (x :: r) =>
      '[' :: (newline (depth + 1) ++ (x.prettyChars (depth + 1) ++ prettyItems depth r))
  | .obj [] => ['{', '}']
  | .obj ((k, x) :: r) =>
      '{' :: (newline (depth + 1) ++
        (quoted k ++ ':' :: ' ' :: (x.prettyChars (depth + 1) ++ prettyMembers depth r)))

def prettyItems (depth : Nat) : List Json → List Char
  | [] => newline depth ++ [']']
  | x :: r => ',' :: (newline (depth + 1) ++ (x.prettyChars (depth + 1) ++ prettyItems depth r))

def prettyMembers (depth : Nat) : List (String × Json) → List Char
  | [] => newline depth ++ ['}']
  | (k, x) :: r =>
      ',' :: (newline (depth + 1) ++
        (quoted k ++ ':' :: ' ' :: (x.prettyChars (depth + 1) ++ prettyMembers depth r)))

end

def pretty (j : Json) : String := String.ofList (j.prettyChars 0)

end GameTimeline.Json
