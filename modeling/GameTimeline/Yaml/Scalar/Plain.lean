import GameTimeline.Yaml.Scalar.Folding

namespace GameTimeline.Yaml.Plain

def isFlowMark (c : Char) : Bool := c = ',' || c = '[' || c = ']' || c = '{' || c = '}'

def ends (inFlow : Bool) (c : Char) (r : List Char) : Bool :=
  (c = ':' && atGap r) || (inFlow && isFlowMark c)

def strayColon (inFlow : Bool) (c : Char) : List Char → Bool
  | [] => false
  | d :: _ => inFlow && c = ':' && (d = '?' || isFlowMark d)

def leaves (inFlow : Bool) (margin : Nat) (gap : Gap) (c : Char) (r : List Char)
    (column : Nat) : Bool :=
  (!inFlow && gap.isLines && column < margin) || (column == 0 && atDocumentMark (c :: r)) ||
    (!gap.isEmpty && c = '#')

def scan (inFlow : Bool) (margin : Nat) : Folding → List Char → Position → Option (Folding × Cursor)
  | f, [], p => some (f, ⟨[], p⟩)
  | f, c :: r, p =>
      if isSpace c then
        if c = '\t' ∧ f.gap.isLines ∧ p.column < margin then none
        else scan inFlow margin (f.blank c) r (p.after c)
      else if isBreak c then scan inFlow margin (f.lineBreak c) r (p.after c)
      else if leaves inFlow margin f.gap c r p.column then some (f, ⟨c :: r, p⟩)
      else if strayColon inFlow c r then none
      else if ends inFlow c r then some (f, ⟨c :: r, p⟩)
      else scan inFlow margin (f.push c) r (p.after c)

end Plain

def Cursor.plain? (s : Cursor) (inFlow : Bool) (margin : Nat) : Option (String × Bool × Cursor) :=
  (Plain.scan inFlow margin .empty s.rest s.position).map fun (f, s) =>
    (String.ofList f.text.reverse, f.gap.isLines, s)

end GameTimeline.Yaml
