import GameTimeline.Text.Bytes

namespace GameTimeline.Csv

def comma : UInt8 := 0x2c

def quote : UInt8 := 0x22

def isLineEnd (b : UInt8) : Bool := b = 0x0a || b = 0x0d

def isSpecial (b : UInt8) : Bool := b = comma || b = quote || isLineEnd b

def doubleQuotes (bs : List UInt8) : List UInt8 :=
  bs.flatMap fun b => if b = quote then [quote, quote] else [b]

def cell (bs : List UInt8) : List UInt8 :=
  if bs.any isSpecial then quote :: doubleQuotes bs ++ [quote] else bs

def record (cells : List (List UInt8)) : List UInt8 :=
  match cells with
  | [[]] => [quote, quote, 0x0a]
  | _ => List.intercalate [comma] (cells.map cell) ++ [0x0a]

def render (rows : List (List (List UInt8))) : List UInt8 := rows.flatMap record

inductive Place where
  | between
  | start
  | bare
  | quoted
  | afterQuote
  deriving DecidableEq, Repr

structure Scan where
  place : Place
  bytes : List UInt8
  cells : List (List UInt8)
  rows : List (List (List UInt8))

namespace Scan

def new : Scan := ⟨.between, [], [], []⟩

def endCell (s : Scan) : Scan := ⟨.start, [], s.bytes.reverse :: s.cells, s.rows⟩

def endRow (s : Scan) : Scan :=
  ⟨.between, [], [], (s.bytes.reverse :: s.cells).reverse :: s.rows⟩

def put (s : Scan) (place : Place) (b : UInt8) : Scan := { s with place, bytes := b :: s.bytes }

def plain (s : Scan) (b : UInt8) : Scan :=
  if b = comma then s.endCell
  else if isLineEnd b then s.endRow
  else s.put .bare b

def step (s : Scan) (b : UInt8) : Scan :=
  match s.place with
  | .between =>
      if isLineEnd b then s
      else if b = quote then { s with place := .quoted }
      else s.plain b
  | .start => if b = quote then { s with place := .quoted } else s.plain b
  | .bare => s.plain b
  | .quoted => if b = quote then { s with place := .afterQuote } else s.put .quoted b
  | .afterQuote => if b = quote then s.put .quoted b else s.plain b

def finish (s : Scan) : List (List (List UInt8)) :=
  match s.place with
  | .between => s.rows.reverse
  | _ => s.endRow.rows.reverse

end Scan

/-- The records of a text. Blank lines are none; a quote that is never closed ends with the text. -/
def parse (bs : List UInt8) : List (List (List UInt8)) :=
  ((Text.dropByteOrderMark bs).foldl Scan.step .new).finish

end GameTimeline.Csv
