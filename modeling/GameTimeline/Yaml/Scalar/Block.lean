import GameTimeline.Yaml.Cursor

namespace GameTimeline.Yaml

inductive Chomping where
  | strip
  | clip
  | keep

structure Header where
  chomping : Chomping
  increment : Option Nat

namespace Header

def chomping? : Char → Option Chomping
  | '+' => some .keep
  | '-' => some .strip
  | _ => none

def digit? (c : Char) : Option Nat := if c.isDigit then some (c.toNat - 0x30) else none

def ofMarks : List Char → Header × Nat
  | a :: b :: _ =>
      match chomping? a, digit? a, chomping? b, digit? b with
      | some h, _, _, some n => (⟨h, some n⟩, 2)
      | _, some n, some h, _ => (⟨h, some n⟩, 2)
      | some h, _, _, _ => (⟨h, none⟩, 1)
      | _, some n, _, _ => (⟨.clip, some n⟩, 1)
      | _, _, _, _ => (⟨.clip, none⟩, 0)
  | [a] =>
      match chomping? a, digit? a with
      | some h, _ => (⟨h, none⟩, 1)
      | _, some n => (⟨.clip, some n⟩, 1)
      | _, _ => (⟨.clip, none⟩, 0)
  | [] => (⟨.clip, none⟩, 0)

end Header

structure Block where
  folds : Bool
  indent : Option Nat
  widest : Nat
  text : List Char
  broken : List Char
  empties : List Char
  afterBlank : Bool

namespace Block

def inMargin (b : Block) (column : Nat) : Bool :=
  match b.indent with
  | none => true
  | some n => column < n

def settledIndent (b : Block) (margin column : Nat) : Nat :=
  b.indent.getD (max (max b.widest column) (max margin 1))

def joint (b : Block) (c : Char) : List Char :=
  if b.folds ∧ b.broken = ['\n'] ∧ ¬ b.afterBlank ∧ ¬ isSpace c then
    if b.empties.isEmpty then [' '] else b.empties
  else b.empties ++ b.broken

def startLine (b : Block) (c : Char) (indent : Nat) : Block :=
  { b with
    indent := some indent
    text := c :: (b.joint c ++ b.text)
    broken := []
    empties := []
    afterBlank := isSpace c }

def close (b : Block) : Chomping → String
  | .strip => String.ofList b.text.reverse
  | .clip => String.ofList (b.broken ++ b.text).reverse
  | .keep => String.ofList (b.empties ++ b.broken ++ b.text).reverse

def scan (margin : Nat) (inLine : Bool) : Block → List Char → Position → Option (Block × Cursor)
  | b, [], p => some (b, ⟨[], p⟩)
  | b, c :: r, p =>
      if inLine then
        if isBreak c then scan margin false { b with broken := [c] } r (p.after c)
        else scan margin true { b with text := c :: b.text } r (p.after c)
      else if c = ' ' ∧ b.inMargin p.column then scan margin false b r (p.after c)
      else if c = '\t' ∧ b.inMargin p.column then none
      else if isBreak c then
        scan margin false { b with empties := c :: b.empties, widest := max b.widest p.column } r
          (p.after c)
      else if p.column = b.settledIndent margin p.column then
        scan margin true (b.startLine c p.column) r (p.after c)
      else some (b, ⟨c :: r, p⟩)

end Block

def Cursor.block? (s : Cursor) (folds : Bool) (margin : Nat) : Option (String × Cursor) := do
  let (header, n) := Header.ofMarks s.rest
  guard (header.increment ≠ some 0)
  let s := ((s.drop n).skipRun isSpace).skipComment
  guard (atBreak s.rest)
  let s := s.tail
  let indent := header.increment.map fun n => (margin - 1) + n
  let (b, s) ← Block.scan margin false ⟨folds, indent, 0, [], [], [], false⟩ s.rest s.position
  pure (b.close header.chomping, s)

end GameTimeline.Yaml
