import GameTimeline.Yaml.Cursor

namespace GameTimeline.Yaml

inductive Gap where
  | blanks (cs : List Char)
  | lines (first : Option Char) (more : List Char)

namespace Gap

def blank (c : Char) : Gap → Gap
  | .blanks cs => .blanks (c :: cs)
  | .lines first more => .lines first more

def lineBreak (c : Char) : Gap → Gap
  | .blanks _ => .lines (some c) []
  | .lines first more => .lines first (c :: more)

def isEmpty : Gap → Bool
  | .blanks [] => true
  | _ => false

def isLines : Gap → Bool
  | .lines _ _ => true
  | .blanks _ => false

def folded : Gap → List Char
  | .blanks cs => cs.reverse
  | .lines none more => more.reverse
  | .lines (some c) more =>
      if c = '\n' then if more.isEmpty then [' '] else more.reverse
      else c :: more.reverse

end Gap

structure Folding where
  text : List Char
  gap : Gap

namespace Folding

def empty : Folding := ⟨[], .blanks []⟩

def close (f : Folding) : List Char := f.gap.folded.reverse ++ f.text

def push (f : Folding) (c : Char) : Folding := ⟨c :: f.close, .blanks []⟩

def blank (f : Folding) (c : Char) : Folding := { f with gap := f.gap.blank c }

def lineBreak (f : Folding) (c : Char) : Folding := { f with gap := f.gap.lineBreak c }

def escapedBreak (f : Folding) : Folding := ⟨f.close, .lines none []⟩

end Folding

end GameTimeline.Yaml
