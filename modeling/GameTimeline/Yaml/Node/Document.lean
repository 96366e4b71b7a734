import GameTimeline.Text.Bytes
import GameTimeline.Yaml.Node.Places

namespace GameTimeline.Yaml.Node

structure Directives where
  versioned : Bool
  handles : Table Tag

namespace Directives

def step? (d : Directives) : Token → Option Directives
  | .version major minor =>
      if d.versioned ∨ major ≠ 1 ∨ (minor ≠ 1 ∧ minor ≠ 2) then none
      else some { d with versioned := true }
  | .handle name stands =>
      if (d.handles.get? name).isSome then none
      else some { d with handles := d.handles.insert name stands }
  | _ => none

def usual : List (String × Tag) :=
  [("!", Text.utf8 "!"), ("!!", Text.utf8 "tag:yaml.org,2002:")]

def handles? (tokens : List Token) : Option (Table Tag) :=
  (tokens.foldlM step? ⟨false, .empty⟩).map fun d =>
    usual.foldl (fun t e => if (t.get? e.1).isSome then t else t.insert e.1 e.2) d.handles

end Directives

def isDirective : Token → Bool
  | .version _ _ | .handle _ _ => true
  | _ => false

def closesDocument (t : Token) : Bool := t = .documentEnd || t = .textEnd

def isTail (tokens : List Token) : Bool := tokens.dropWhile (· = .documentEnd) == [.textEnd]

def ofTokens? (tokens : List Token) : Option (Node String) := do
  let directives := tokens.takeWhile isDirective
  let handles ← Directives.handles? directives
  let (marked, rest) := match tokens.dropWhile isDirective with
    | .documentStart :: r => (true, r)
    | r => (false, r)
  let body := rest.takeWhile fun t => !closesDocument t
  let tail := rest.dropWhile fun t => !closesDocument t
  guard (isTail tail)
  guard (marked ∨ directives.isEmpty)
  if body.isEmpty then
    if marked ∨ tail.length = 1 then pure .absent else none
  else Place.node? handles body

end GameTimeline.Yaml.Node
