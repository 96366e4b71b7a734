import GameTimeline.Json.Parser
import GameTimeline.Text.Bytes

namespace GameTimeline.Json.Spelled

def decoded? (s : List Char) : Option (List Char) :=
  (Text.ofUtf8? (s.map fun c => UInt8.ofNat c.toNat)).map String.toList

mutual

def decode? : Spelled → Option Spelled
  | .null => some .null
  | .bool b => some (.bool b)
  | .num t => some (.num t)
  | .str s => (decoded? s).map .str
  | .arr xs => (decodeItems? xs).map .arr
  | .obj ms => (decodeMembers? ms).map .obj

def decodeItems? : List Spelled → Option (List Spelled)
  | [] => some []
  | x :: r => do
      let y ← x.decode?
      let ys ← decodeItems? r
      pure (y :: ys)

def decodeMembers? : List (List Char × Spelled) → Option (List (List Char × Spelled))
  | [] => some []
  | (k, x) :: r => do
      let k ← decoded? k
      let y ← x.decode?
      let ys ← decodeMembers? r
      pure ((k, y) :: ys)

end

def byteText? (s : List Char) : Option String := (decoded? s).bind text?

def byteValue? (room : Nat) (s : Spelled) : Option Json := s.decode?.bind (·.value? room)

/-- Bytes that are passed over need not encode anything. -/
def byteRecords? : List String → Spelled → Option (List Json) := recordsBy? byteText? byteValue?

def ofBytes? (bytes : List UInt8) : Option Spelled :=
  ofText? (String.ofList (bytes.map fun b => Char.ofNat b.toNat))

end GameTimeline.Json.Spelled
