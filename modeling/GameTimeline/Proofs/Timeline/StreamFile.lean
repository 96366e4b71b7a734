import GameTimeline.Proofs.Table
import GameTimeline.Timeline.RawFrame

namespace GameTimeline

open Json (Spelled)
open Json.Spelled (byteText? byteValue?)

inductive ReadingOf : Json → Reading → Prop
  | nothing : ReadingOf .null none
  | flag (b : Bool) : ReadingOf (.bool b) (some (.flag b))
  | text (s : String) : ReadingOf (.str s) (some (.text s))
  | int (n : Int64) : ReadingOf (.num (.int n.toInt)) (some (.int n))
  | number {n : Number} (h : ∀ i : Int64, n ≠ .int i.toInt) :
      ReadingOf (.num n) (some (.unsupported (Json.num n).compact))
  | list (xs : List Json) : ReadingOf (.arr xs) (some (.unsupported (Json.arr xs).sorted.compact))
  | object (ms : List (String × Json)) :
      ReadingOf (.obj ms) (some (.unsupported (Json.obj ms).sorted.compact))

inductive ConfidenceOf : Json → Float32 → Prop
  | number (n : Number) : ConfidenceOf (.num n) (Decimal.narrow n.toFloat)
  | other {j : Json} (h : ∀ n, j ≠ .num n) : ConfidenceOf j (Float32.ofBits 0x7fc00000)

inductive TableOf {α : Type} (shows : Json → α → Prop) : Option Json → Table α → Prop
  | absent : TableOf shows none .empty
  | object {ms : List (String × Json)} {t : Table α}
      (h : ∀ n, Option.Rel shows (Table.named n ms).getLast? (t.get? n)) :
      TableOf shows (some (.obj ms)) t

structure FrameOf (ps : List (Option Json)) (f : RawFrame) : Prop where
  frame : ps[0]?.join = some (.num (.int f.frame))
  word : f.frame < 2 ^ 64
  timestamp : ∃ n, ps[1]?.join = some (.num n) ∧ n.toFloat = f.timestamp
  readings : TableOf ReadingOf ps[2]?.join f.readings
  confidence : TableOf ConfidenceOf ps[3]?.join f.confidence

-- The list of the frames and the frame itself take two of the 127 levels that a document may have.
def Valued (x : Spelled) (j : Json) : Prop := byteValue? 125 x = some j

def Named (m : List Char × Spelled) (e : String × Spelled) : Prop :=
  byteText? m.1 = some e.1 ∧ m.2 = e.2

inductive PartsOf : Spelled → List (Option Json) → Prop
  | object {ms : List (List Char × Spelled)} {named : List (String × Spelled)}
      {ps : List (Option Json)}
      (names : List.Forall₂ Named ms named)
      (once : ∀ n ∈ RawFrame.parts, (Table.named n named).length ≤ 1)
      (values : List.Forall₂ (fun n p => Option.Rel Valued (Table.named n named).head? p)
        RawFrame.parts ps) :
      PartsOf (.obj ms) ps
  | list {xs : List Spelled} {js : List Json} (values : List.Forall₂ Valued xs js)
      (few : js.length ≤ RawFrame.parts.length) : PartsOf (.arr xs) (js.map some)

def RecordOf (x : Spelled) (f : RawFrame) : Prop := ∃ ps, PartsOf x ps ∧ FrameOf ps f

def Holds (bytes : List UInt8) (frames : List RawFrame) : Prop :=
  ∃ xs, Spelled.ofBytes? (Text.dropByteOrderMark bytes) = some (.arr xs) ∧
    List.Forall₂ RecordOf xs frames

def Member (e : String × Spelled) (m : String × Json) : Prop := e.1 = m.1 ∧ Valued e.2 m.2

end GameTimeline
