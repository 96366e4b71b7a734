import GameTimeline.Json.Number

namespace GameTimeline.Json

/-- The parts of a record in declared order. A record is an object, or the list of its parts; a part
must not be named twice. -/
def parts? (names : List String) : Json → Option (List (Option Json))
  | .obj ms =>
      if names.any fun n => 1 < (ms.map (·.1)).count n then none
      else some (names.map fun n => Table.findEntry n ms)
  | .arr xs => if xs.length ≤ names.length then some (xs.map some) else none
  | _ => none

def exactParts? (names : List String) (j : Json) : Option (List (Option Json)) :=
  match j with
  | .obj ms => if ms.all fun m => names.contains m.1 then parts? names j else none
  | _ => parts? names j

def part (ps : List (Option Json)) (i : Nat) : Option Json := ps[i]?.join

def word? (j : Json) : Option Nat := j.nat?.filter (· < UInt64.size)

def nat32? (j : Json) : Option Nat := j.nat?.filter (· < UInt32.size)

def float32? : Json → Option Float32
  | .num (.int n) =>
      let bits := Decimal.nearest Decimal.single n.natAbs 0
      some (Float32.ofBits (UInt32.ofNat (if n < 0 then bits + 0x80000000 else bits)))
  | .num (.float x) => some (Decimal.narrow x)
  | _ => none

def optional? {α : Type} (read : Json → Option α) : Option Json → Option (Option α)
  | none => some none
  | some .null => some none
  | some j => (read j).map some

def defaulted? {α : Type} (read : Json → Option α) (d : α) : Option Json → Option α
  | none => some d
  | some j => read j

def tableOf? {α : Type} (read : Json → Option α) : Json → Option (Table α)
  | .obj ms => (ms.mapM fun m => (read m.2).map fun a => (m.1, a)).map Table.ofList
  | _ => none

def listOf? {α : Type} (read : Json → Option α) : Json → Option (List α)
  | .arr xs => xs.mapM read
  | _ => none

def choice? {α : Type} (read : String → Option α) : Json → Option α
  | .str s => read s
  | .obj [(k, .null)] => read k
  | _ => none

end GameTimeline.Json
