import GameTimeline.Text.Hex
import GameTimeline.Yaml.Scalar.Folding

namespace GameTimeline.Yaml

namespace Quoted

def single : Folding → List Char → Position → Option (String × Cursor)
  | _, [], _ => none
  | f, '\x27' :: '\x27' :: r, p => single (f.push '\x27') r ((p.after '\x27').after '\x27')
  | f, c :: r, p =>
      if c = '\x27' then some (String.ofList f.close.reverse, ⟨r, p.after c⟩)
      else if isSpace c then single (f.blank c) r (p.after c)
      else if isBreak c then single (f.lineBreak c) r (p.after c)
      else if p.column = 0 ∧ atDocumentMark (c :: r) then none
      else single (f.push c) r (p.after c)

inductive Spot where
  | text
  | escape
  | code (left value : Nat)

def escaped? : Char → Option Char
  | '0' => some (Char.ofNat 0)
  | 'a' => some '\x07'
  | 'b' => some '\x08'
  | 't' => some '\t'
  | '\t' => some '\t'
  | 'n' => some '\n'
  | 'v' => some '\x0b'
  | 'f' => some '\x0c'
  | 'r' => some '\r'
  | 'e' => some '\x1b'
  | ' ' => some ' '
  | '"' => some '"'
  | '/' => some '/'
  | '\\' => some '\\'
  | 'N' => some nextLine
  | '_' => some (Char.ofNat 0xa0)
  | 'L' => some lineSeparator
  | 'P' => some paragraphSeparator
  | _ => none

def codeLength? : Char → Option Nat
  | 'x' => some 2
  | 'u' => some 4
  | 'U' => some 8
  | _ => none

def char? (n : Nat) : Option Char := if n.isValidChar then some (Char.ofNat n) else none

def double : Folding → Spot → List Char → Position → Option (String × Cursor)
  | _, _, [], _ => none
  | f, .text, c :: r, p =>
      if c = '"' then some (String.ofList f.close.reverse, ⟨r, p.after c⟩)
      else if isSpace c then double (f.blank c) .text r (p.after c)
      else if isBreak c then double (f.lineBreak c) .text r (p.after c)
      else if p.column = 0 ∧ atDocumentMark (c :: r) then none
      else if c = '\\' then double f .escape r (p.after c)
      else double (f.push c) .text r (p.after c)
  | f, .escape, c :: r, p =>
      if isBreak c then double f.escapedBreak .text r (p.after c)
      else match codeLength? c with
        | some n => double f (.code n 0) r (p.after c)
        | none => match escaped? c with
          | some d => double (f.push d) .text r (p.after c)
          | none => none
  | f, .code left n, c :: r, p =>
      match Text.hexValue? c with
      | none => none
      | some d =>
          if left ≤ 1 then
            match char? (16 * n + d) with
            | some e => double (f.push e) .text r (p.after c)
            | none => none
          else double f (.code (left - 1) (16 * n + d)) r (p.after c)

end Quoted

def Cursor.singleQuoted? (s : Cursor) : Option (String × Cursor) :=
  Quoted.single .empty s.rest s.position

def Cursor.doubleQuoted? (s : Cursor) : Option (String × Cursor) :=
  Quoted.double .empty .text s.rest s.position

end GameTimeline.Yaml
