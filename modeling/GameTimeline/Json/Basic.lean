import GameTimeline.Table
import GameTimeline.Text.Digits

namespace GameTimeline

inductive Number where
  | int (n : Int)
  | float (x : Float)
  deriving DecidableEq, Repr, Inhabited

inductive Json where
  | null
  | bool (b : Bool)
  | num (n : Number)
  | str (s : String)
  | arr (items : List Json)
  | obj (members : List (String × Json))
  deriving Repr, Inhabited

namespace Json

def nat (n : Nat) : Json := .num (.int n)

def int (n : Int) : Json := .num (.int n)

def float (x : Float) : Json := if x.isFinite then .num (.float x) else .null

def isNull : Json → Bool
  | .null => true
  | _ => false

def option {α : Type} (f : α → Json) : Option α → Json
  | none => .null
  | some a => f a

def table {α : Type} (f : α → Json) (t : Table α) : Json :=
  .obj (t.entries.map fun e => (e.1, f e.2))

def int? : Json → Option Int
  | .num (.int n) => some n
  | _ => none

def int64? (j : Json) : Option Int64 :=
  j.int?.bind Text.toInt64?

def nat? (j : Json) : Option Nat :=
  j.int?.bind fun n => if 0 ≤ n then some n.toNat else none

def string? : Json → Option String
  | .str s => some s
  | _ => none

def bool? : Json → Option Bool
  | .bool b => some b
  | _ => none

def array? : Json → Option (List Json)
  | .arr xs => some xs
  | _ => none

mutual

def sorted : Json → Json
  | .arr xs => .arr (sortedItems xs)
  | .obj ms => .obj (sortedMembers [] ms)
  | .null => .null
  | .bool b => .bool b
  | .num n => .num n
  | .str s => .str s

def sortedItems : List Json → List Json
  | [] => []
  | x :: r => x.sorted :: sortedItems r

def sortedMembers : List (String × Json) → List (String × Json) → List (String × Json)
  | done, [] => done
  | done, (k, x) :: r => sortedMembers (Table.insertEntry k x.sorted done) r

end

def member? (j : Json) (k : String) : Option Json :=
  match j with
  | .obj ms => Table.findEntry k ms
  | _ => none

end Json

end GameTimeline
