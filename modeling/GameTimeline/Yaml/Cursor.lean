import GameTimeline.Text.Bytes

namespace GameTimeline.Yaml

def isSpace (c : Char) : Bool := c = ' ' || c = '\t'

def lineSeparator : Char := Char.ofNat 0x2028

def paragraphSeparator : Char := Char.ofNat 0x2029

def isBreak (c : Char) : Bool := c = '\n' || c = lineSeparator || c = paragraphSeparator

def isGap (c : Char) : Bool := isSpace c || isBreak c

def atGap : List Char → Bool
  | [] => true
  | c :: _ => isGap c

def atBreak : List Char → Bool
  | [] => true
  | c :: _ => isBreak c

def nextLine : Char := Char.ofNat 0x85

def isAllowed (c : Char) : Bool :=
  let n := c.toNat
  n == 0x09 || n == 0x0a || n == 0x0d || n == 0x85 || (0x20 ≤ n && n ≤ 0x7e) ||
    (0xa0 ≤ n && n ≤ 0xd7ff) || (0xe000 ≤ n && n ≤ 0xfffd) || 0x10000 ≤ n

def plainBreaks : List Char → List Char
  | [] => []
  | '\r' :: '\n' :: r => '\n' :: plainBreaks r
  | c :: r => (if c = '\r' ∨ c = nextLine then '\n' else c) :: plainBreaks r

structure Position where
  line : Nat
  column : Nat
  offset : Nat
  deriving Repr

namespace Position

def start : Position := ⟨0, 0, 0⟩

def after (p : Position) (c : Char) : Position :=
  if isBreak c then ⟨p.line + 1, 0, p.offset + c.utf8Size⟩
  else ⟨p.line, p.column + 1, p.offset + c.utf8Size⟩

end Position

structure Cursor where
  rest : List Char
  position : Position

namespace Cursor

def column (s : Cursor) : Nat := s.position.column

def tail (s : Cursor) : Cursor :=
  match s.rest with
  | [] => s
  | c :: r => ⟨r, s.position.after c⟩

def drop (n : Nat) (s : Cursor) : Cursor := n.repeat tail s

def span (p : Char → Bool) : List Char → Position → List Char × Cursor
  | [], at' => ([], ⟨[], at'⟩)
  | c :: r, at' =>
      if p c then
        let (run, s) := span p r (at'.after c)
        (c :: run, s)
      else ([], ⟨c :: r, at'⟩)

def takeRun (s : Cursor) (p : Char → Bool) : List Char × Cursor := span p s.rest s.position

def skipRun (s : Cursor) (p : Char → Bool) : Cursor := (s.takeRun p).2

def skipComment (s : Cursor) : Cursor :=
  if s.rest.head? = some '#' then s.skipRun fun c => !isBreak c else s

end Cursor

def atDocumentMark : List Char → Bool
  | '-' :: '-' :: '-' :: r => atGap r
  | '.' :: '.' :: '.' :: r => atGap r
  | _ => false

end GameTimeline.Yaml
