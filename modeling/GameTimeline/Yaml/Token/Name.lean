import GameTimeline.Text.Bytes
import GameTimeline.Text.Digits
import GameTimeline.Text.Hex
import GameTimeline.Yaml.Cursor
import GameTimeline.Yaml.Token.Basic

namespace GameTimeline.Yaml

def isNameChar (c : Char) : Bool := c.isAlphanum || c = '_' || c = '-'

def isOneOf (cs : String) (c : Char) : Bool := cs.toList.contains c

def isTagChar (wide : Bool) (c : Char) : Bool :=
  isNameChar c || isOneOf ";/?:@&=+$.%!~*\x27()" c || (wide && isOneOf ",[]" c)

def bytesBehind? (b : UInt8) : Option Nat :=
  if b < 0x80 then some 0
  else if b < 0xc0 then none
  else if b < 0xe0 then some 1
  else if b < 0xf0 then some 2
  else if b < 0xf8 then some 3
  else none

def unescapeTag (more : Nat) : List Char → Option (List UInt8)
  | [] => if more = 0 then some [] else none
  | '%' :: a :: b :: r => do
      let byte := UInt8.ofNat (← Text.unhex? [a, b])
      let more ← if more = 0 then bytesBehind? byte
        else if byte &&& 0xc0 = 0x80 then some (more - 1) else none
      (unescapeTag more r).map (byte :: ·)
  | c :: r =>
      if c = '%' ∨ more ≠ 0 then none
      else (unescapeTag 0 r).map (Text.utf8 (String.singleton c) ++ ·)

def Tag.ofChars? (cs : List Char) : Option Tag := (unescapeTag 0 cs).map (·.takeWhile (· ≠ 0))

namespace Cursor

def name? (s : Cursor) : Option (String × Cursor) :=
  let (run, s) := s.takeRun isNameChar
  let ended := atGap s.rest || s.rest.head?.any (isOneOf "?:,]\x7d%@\x60")
  if run.isEmpty ∨ ¬ ended then none else some (String.ofList run, s)

def handle? (s : Cursor) : Option (List Char × Cursor) :=
  match s.rest with
  | '!' :: _ =>
      let (letters, s) := s.tail.takeRun isNameChar
      match s.rest with
      | '!' :: _ => some ('!' :: letters ++ ['!'], s.tail)
      | _ => some ('!' :: letters, s)
  | _ => none

def isClosedHandle (h : List Char) : Bool := 1 < h.length && h.getLast? = some '!'

def shorthand? (s : Cursor) : Option (Token × Cursor) := do
  let (h, s) ← s.handle?
  let (run, s) := s.takeRun (isTagChar false)
  if isClosedHandle h then
    guard (¬ run.isEmpty)
    let suffix ← Tag.ofChars? run
    pure (.tag (String.ofList h) suffix, s)
  else
    let suffix ← Tag.ofChars? (h.tail ++ run)
    if suffix.isEmpty then pure (.tag "" (Text.utf8 "!"), s) else pure (.tag "!" suffix, s)

def verbatim? (s : Cursor) : Option (Token × Cursor) := do
  let (run, s) := (s.drop 2).takeRun (isTagChar true)
  guard (¬ run.isEmpty)
  let suffix ← Tag.ofChars? run
  match s.rest with
  | '>' :: _ => pure (.tag "" suffix, s.tail)
  | _ => none

def tag? (s : Cursor) (inFlow : Bool) : Option (Token × Cursor) := do
  let (t, s) ← match s.rest with
    | '!' :: '<' :: _ => s.verbatim?
    | _ => s.shorthand?
  guard (atGap s.rest ∨ (inFlow ∧ s.rest.head? = some ','))
  pure (t, s)

def versionPart? (s : Cursor) : Option (Nat × Cursor) :=
  let (run, s) := s.takeRun Char.isDigit
  if run.isEmpty ∨ 9 < run.length then none else some (Text.natOf run, s)

def version? (s : Cursor) : Option (Token × Cursor) := do
  let (major, s) ← (s.skipRun isSpace).versionPart?
  guard (s.rest.head? = some '.')
  let (minor, s) ← s.tail.versionPart?
  pure (.version major minor, s)

def tagHandle? (s : Cursor) : Option (Token × Cursor) := do
  let (h, s) ← (s.skipRun isSpace).handle?
  guard (isClosedHandle h ∨ h = ['!'])
  guard (s.rest.head?.any isSpace)
  let (run, s) := (s.skipRun isSpace).takeRun (isTagChar true)
  guard (¬ run.isEmpty)
  let stands ← Tag.ofChars? run
  guard (atGap s.rest)
  pure (.handle (String.ofList h) stands, s)

def directive? (s : Cursor) : Option (Token × Cursor) := do
  let (word, s) := s.tail.takeRun isNameChar
  guard (atGap s.rest)
  let (t, s) ←
    if word = ['Y', 'A', 'M', 'L'] then s.version?
    else if word = ['T', 'A', 'G'] then s.tagHandle?
    else none
  let s := (s.skipRun isSpace).skipComment
  guard (atBreak s.rest)
  pure (t, s.tail)

end Cursor

end GameTimeline.Yaml
