import GameTimeline.Json.Basic
import GameTimeline.Text.Digits

namespace GameTimeline.Json

namespace Pointer

def unescape : List Char → List Char
  | '~' :: '1' :: r => '/' :: unescape r
  | '~' :: '0' :: r => '~' :: unescape r
  | c :: r => c :: unescape r
  | [] => []

def escapeChar (c : Char) : List Char :=
  if c = '~' then ['~', '0']
  else if c = '/' then ['~', '1']
  else [c]

def escape (token : List Char) : List Char := token.flatMap escapeChar

def segments : List Char → List (List Char)
  | [] => [[]]
  | c :: r =>
      if c = '/' then [] :: segments r
      else match segments r with
        | [] => [[c]]
        | s :: rest => (c :: s) :: rest

def tokens? : List Char → Option (List String)
  | [] => some []
  | '/' :: r => some ((segments r).map fun s => String.ofList (unescape s))
  | _ => none

def index? (token : String) : Option Nat :=
  match token.toList with
  | ['0'] => some 0
  | '0' :: _ => none
  | ds => (Text.nat? ds).filter (· ≤ Text.maxWord)

end Pointer

def child? (j : Json) (token : String) : Option Json :=
  match j with
  | .obj ms => Table.findEntry token ms
  | .arr xs => (Pointer.index? token).bind (xs[·]?)
  | _ => none

def descend (j : Json) (path : List String) : Option Json := path.foldlM child? j

def pointer? (j : Json) (p : String) : Option Json :=
  (Pointer.tokens? p.toList).bind j.descend

end GameTimeline.Json
