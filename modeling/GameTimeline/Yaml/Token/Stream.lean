import GameTimeline.Yaml.Scalar.Block
import GameTimeline.Yaml.Scalar.Plain
import GameTimeline.Yaml.Scalar.Quoted
import GameTimeline.Yaml.Token.Name

namespace GameTimeline.Yaml

structure OpenKey where
  required : Bool
  index : Nat
  position : Position

namespace OpenKey

def isLate (k : OpenKey) (p : Position) : Bool :=
  k.position.line < p.line || k.position.offset + 1024 < p.offset

def giveUp? : Option OpenKey → Option (Option OpenKey)
  | some k => if k.required then none else some none
  | none => some none

def check? (p : Position) : Option OpenKey → Option (Option OpenKey)
  | some k => if k.isLate p then giveUp? (some k) else some (some k)
  | none => some none

end OpenKey

/-- The tokens of a text as far as it is read, last first, with the columns of the open blocks and
the keys that the open flow collections and the block around them may have. -/
structure Lexer where
  cursor : Cursor
  tokens : List Token
  count : Nat
  columns : List Nat
  keyAllowed : Bool
  openKey : Option OpenKey
  outerKeys : List (Option OpenKey)

namespace Lexer

def start (text : List Char) : Lexer := ⟨⟨text, .start⟩, [], 0, [], true, none, []⟩

def inFlow (s : Lexer) : Bool := !s.outerKeys.isEmpty

def column (s : Lexer) : Nat := s.cursor.column

def margin (s : Lexer) : Nat :=
  match s.columns with
  | [] => 0
  | n :: _ => n + 1

def emit (s : Lexer) (t : Token) : Lexer := { s with tokens := t :: s.tokens, count := s.count + 1 }

def insert (s : Lexer) (index : Nat) (t : Token) : Lexer :=
  { s with tokens := s.tokens.insertIdx (s.count - index) t, count := s.count + 1 }

def move (s : Lexer) (cursor : Cursor) : Lexer := { s with cursor }

def allowKey (s : Lexer) (keyAllowed : Bool) : Lexer := { s with keyAllowed }

def giveUpKey? (s : Lexer) : Option Lexer :=
  (OpenKey.giveUp? s.openKey).map fun openKey => { s with openKey }

def mayBeKey? (s : Lexer) : Option Lexer :=
  if s.keyAllowed then do
    let s ← s.giveUpKey?
    let required := !s.inFlow && s.columns.head? = some s.column
    pure { s with openKey := some ⟨required, s.count, s.cursor.position⟩ }
  else some s

def checkKeys? (s : Lexer) : Option Lexer := do
  let openKey ← OpenKey.check? s.cursor.position s.openKey
  let outerKeys ← s.outerKeys.mapM (OpenKey.check? s.cursor.position)
  pure { s with openKey, outerKeys }

def openBlock (s : Lexer) (column index : Nat) (t : Token) : Lexer :=
  if !s.inFlow ∧ s.margin ≤ column then { s.insert index t with columns := column :: s.columns }
  else s

def closeBlocksFrom (margin : Nat) : List Nat → List Token → Nat → List Nat × List Token × Nat
  | [], ts, n => ([], ts, n)
  | c :: cs, ts, n =>
      if margin ≤ c then closeBlocksFrom margin cs (.blockEnd :: ts) (n + 1) else (c :: cs, ts, n)

def closeBlocks (s : Lexer) (margin : Nat) : Lexer :=
  if s.inFlow then s
  else
    let (columns, tokens, count) := closeBlocksFrom margin s.columns s.tokens s.count
    { s with columns, tokens, count }

def skipGaps (inFlow : Bool) : Bool → Bool → List Char → Position → Bool × Cursor
  | keyAllowed, _, [], p => (keyAllowed, ⟨[], p⟩)
  | keyAllowed, inComment, c :: r, p =>
      if isBreak c then skipGaps inFlow (keyAllowed || !inFlow) false r (p.after c)
      else if inComment then skipGaps inFlow keyAllowed true r (p.after c)
      else if c = ' ' ∨ (c = '\t' ∧ (inFlow ∨ !keyAllowed)) ∨
          (p.column = 0 ∧ c = Text.byteOrderMark) then
        skipGaps inFlow keyAllowed false r (p.after c)
      else if c = '#' then skipGaps inFlow keyAllowed true r (p.after c)
      else (keyAllowed, ⟨c :: r, p⟩)

def toNextToken (s : Lexer) : Lexer :=
  let (keyAllowed, cursor) := skipGaps s.inFlow s.keyAllowed false s.cursor.rest s.cursor.position
  { s with keyAllowed, cursor }

def directive? (s : Lexer) : Option Lexer := do
  let s ← (s.closeBlocks 0).giveUpKey?
  let (t, cursor) ← s.cursor.directive?
  pure (((s.allowKey false).emit t).move cursor)

def documentMark? (s : Lexer) (t : Token) : Option Lexer := do
  let s ← (s.closeBlocks 0).giveUpKey?
  pure (((s.allowKey false).emit t).move (s.cursor.drop 3))

def openFlow? (s : Lexer) (t : Token) : Option Lexer := do
  let s ← s.mayBeKey?
  let s := { s with openKey := none, outerKeys := s.openKey :: s.outerKeys }
  pure (((s.allowKey true).emit t).move s.cursor.tail)

def closeFlow? (s : Lexer) (t : Token) : Option Lexer := do
  let s ← s.giveUpKey?
  let s := match s.outerKeys with
    | [] => s
    | k :: ks => { s with openKey := k, outerKeys := ks }
  pure (((s.allowKey false).emit t).move s.cursor.tail)

def comma? (s : Lexer) : Option Lexer := do
  let s ← s.giveUpKey?
  pure (((s.allowKey true).emit .comma).move s.cursor.tail)

def dash? (s : Lexer) : Option Lexer := do
  guard (s.inFlow ∨ s.keyAllowed)
  let s ← (s.openBlock s.column s.count .blockSequence).giveUpKey?
  pure (((s.allowKey true).emit .dash).move s.cursor.tail)

def key? (s : Lexer) : Option Lexer := do
  guard (s.inFlow ∨ s.keyAllowed)
  let s ← (s.openBlock s.column s.count .blockMapping).giveUpKey?
  pure (((s.allowKey !s.inFlow).emit .key).move s.cursor.tail)

def value? (s : Lexer) : Option Lexer := do
  let s ← match s.openKey with
    | some k =>
        let s := (s.insert k.index .key).openBlock k.position.column k.index .blockMapping
        some { s with openKey := none, keyAllowed := false }
    | none => do
        guard (s.inFlow ∨ s.keyAllowed)
        pure ((s.openBlock s.column s.count .blockMapping).allowKey !s.inFlow)
  pure ((s.emit .value).move s.cursor.tail)

def content? (s : Lexer) (read : Cursor → Option (Token × Cursor)) : Option Lexer := do
  let s ← s.mayBeKey?
  let (t, cursor) ← read s.cursor
  pure (((s.allowKey false).emit t).move cursor)

def named (make : String → Token) (read : Cursor → Option (String × Cursor)) (s : Cursor) :
    Option (Token × Cursor) :=
  (read s.tail).map fun (name, s) => (make name, s)

def block? (s : Lexer) (folds : Bool) : Option Lexer := do
  let s ← s.giveUpKey?
  let (text, cursor) ← s.cursor.tail.block? folds s.margin
  pure (((s.allowKey true).emit (.scalar false text)).move cursor)

def plain? (s : Lexer) : Option Lexer := do
  let s ← s.mayBeKey?
  let (text, breaks, cursor) ← s.cursor.plain? s.inFlow s.margin
  pure (((s.allowKey breaks).emit (.scalar true text)).move cursor)

def isIndicator (c : Char) : Bool := isOneOf "-?:,[]\x7b\x7d#&*!|>\x27\"%@\x60" c

def startsPlain (inFlow : Bool) (c : Char) (r : List Char) : Bool :=
  !(isGap c || isIndicator c) || (c = '-' && !atGap r) ||
    (!inFlow && (c = '?' || c = ':') && !atGap r)

def mark? (s : Lexer) (c : Char) (r : List Char) : Option Lexer :=
  match c with
  | '[' => s.openFlow? .openSequence
  | '{' => s.openFlow? .openMapping
  | ']' => s.closeFlow? .closeSequence
  | '}' => s.closeFlow? .closeMapping
  | ',' => s.comma?
  | '*' => s.content? (named .alias Cursor.name?)
  | '&' => s.content? (named .anchor Cursor.name?)
  | '!' => s.content? (Cursor.tag? · s.inFlow)
  | '\x27' => s.content? (named (.scalar false) Cursor.singleQuoted?)
  | '"' => s.content? (named (.scalar false) Cursor.doubleQuoted?)
  | _ =>
      if c = '-' ∧ atGap r then s.dash?
      else if c = '?' ∧ (s.inFlow ∨ atGap r) then s.key?
      else if c = ':' ∧ (s.inFlow ∨ atGap r) then s.value?
      else if c = '|' ∧ !s.inFlow then s.block? false
      else if c = '>' ∧ !s.inFlow then s.block? true
      else if startsPlain s.inFlow c r then s.plain?
      else none

def token? (s : Lexer) (c : Char) (r : List Char) : Option Lexer :=
  if s.column = 0 ∧ c = '%' then s.directive?
  else if s.column = 0 ∧ atDocumentMark (c :: r) then
    s.documentMark? (if c = '-' then .documentStart else .documentEnd)
  else s.mark? c r

def finish? (s : Lexer) : Option (List Token) :=
  (s.closeBlocks 0).giveUpKey?.map fun s => (s.emit .textEnd).tokens.reverse

def next? (s : Lexer) (c : Char) (r : List Char) : Option Lexer :=
  (s.closeBlocks (s.column + 1)).token? c r

def run? : Nat → Lexer → Option (List Token)
  | 0, _ => none
  | limit + 1, s => do
      let s ← s.toNextToken.checkKeys?
      match s.cursor.rest with
      | [] => s.finish?
      | c :: r => do
          let s ← s.next? c r
          run? limit s

end Lexer

def Token.ofText? (text : String) : Option (List Token) :=
  let text := text.toList
  if text.all isAllowed then Lexer.run? (text.length + 1) (Lexer.start (plainBreaks text)) else none

end GameTimeline.Yaml
