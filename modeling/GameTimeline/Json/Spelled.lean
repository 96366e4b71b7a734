import GameTimeline.Json.Number
import GameTimeline.Text.Hex

namespace GameTimeline.Json

inductive Spelled where
  | null
  | bool (b : Bool)
  | num (t : Numeral)
  | str (s : List Char)
  | arr (items : List Spelled)
  | obj (members : List (List Char × Spelled))
  deriving Inhabited

namespace Spelled

def isHighSurrogate (n : Nat) : Bool := 0xd800 ≤ n && n < 0xdc00

def isLowSurrogate (n : Nat) : Bool := 0xdc00 ≤ n && n < 0xe000

def simpleEscape? : Char → Option Char
  | '"' => some '"'
  | '\\' => some '\\'
  | '/' => some '/'
  | 'b' => some '\x08'
  | 'f' => some '\x0c'
  | 'n' => some '\n'
  | 'r' => some '\r'
  | 't' => some '\t'
  | _ => none

def isEscaped : List Char → Bool
  | [] => true
  | '\\' :: 'u' :: a :: b :: c :: d :: r => (Text.unhex? [a, b, c, d]).isSome && isEscaped r
  | '\\' :: e :: r => (simpleEscape? e).isSome && isEscaped r
  | c :: r => !(c = '\\' || c.toNat < 0x20) && isEscaped r

def unescape? : List Char → Option (List Char)
  | [] => some []
  | '\\' :: 'u' :: a :: b :: c :: d :: r => do
      let n ← Text.unhex? [a, b, c, d]
      if isHighSurrogate n then
        match r with
        | '\\' :: 'u' :: a' :: b' :: c' :: d' :: r' => do
            let m ← Text.unhex? [a', b', c', d']
            if isLowSurrogate m then
              (unescape? r').map (Char.ofNat (0x10000 + (n - 0xd800) * 0x400 + (m - 0xdc00)) :: ·)
            else none
        | _ => none
      else if isLowSurrogate n then none
      else (unescape? r).map (Char.ofNat n :: ·)
  | '\\' :: e :: r => do
      let c ← simpleEscape? e
      (unescape? r).map (c :: ·)
  | c :: r => if c = '\\' ∨ c.toNat < 0x20 then none else (unescape? r).map (c :: ·)

def text? (s : List Char) : Option String := (unescape? s).map String.ofList

def depthLimit : Nat := 127

mutual

def value? (room : Nat) : Spelled → Option Json
  | .null => some .null
  | .bool b => some (.bool b)
  | .num t => t.toNumber?.map .num
  | .str s => (text? s).map .str
  | .arr xs => if room = 0 then none else (itemValues? (room - 1) xs).map .arr
  | .obj ms => if room = 0 then none else (memberValues? (room - 1) ms).map .obj

def itemValues? (room : Nat) : List Spelled → Option (List Json)
  | [] => some []
  | x :: r => do
      let j ← x.value? room
      let js ← itemValues? room r
      pure (j :: js)

def memberValues? (room : Nat) : List (List Char × Spelled) → Option (List (String × Json))
  | [] => some []
  | (k, x) :: r => do
      let k ← text? k
      let j ← x.value? room
      let js ← memberValues? room r
      pure ((k, j) :: js)

end

def recordBy? (text : List Char → Option String) (value : Nat → Spelled → Option Json)
    (names : List String) (room : Nat) : Spelled → Option Json
  | .obj ms => do
      guard (room ≠ 0)
      let named ← ms.mapM fun m => (text m.1).map fun k => (k, m.2)
      let members ← (named.filter fun m => names.contains m.1).mapM fun m =>
        (value (room - 1) m.2).map fun j => (m.1, j)
      pure (.obj members)
  | s => value room s

def recordsBy? (text : List Char → Option String) (value : Nat → Spelled → Option Json)
    (names : List String) : Spelled → Option (List Json)
  | .arr xs => xs.mapM (recordBy? text value names (depthLimit - 1))
  | _ => none

def record? : List String → Nat → Spelled → Option Json := recordBy? text? value?

def records? : List String → Spelled → Option (List Json) := recordsBy? text? value?

end Spelled

end GameTimeline.Json
