import GameTimeline.Json.Record

namespace GameTimeline

structure Region where
  x : Nat
  y : Nat
  width : Nat
  height : Nat
  deriving DecidableEq, Repr, Inhabited

namespace Region

def area (r : Region) : Nat := r.width * r.height

def covers (r : Region) (x y : Nat) : Bool :=
  r.x ≤ x && x < r.x + r.width && r.y ≤ y && y < r.y + r.height

def past? (start length : Nat) : Option Nat :=
  if start + length < UInt32.size then some (start + length) else none

def past (start length : Nat) : Nat := (past? start length).getD (UInt32.size - 1)

def fits (r : Region) (width height : Nat) : Bool :=
  0 < r.width && 0 < r.height && (past? r.x r.width).any (· ≤ width) &&
    (past? r.y r.height).any (· ≤ height)

theorem past?_any_iff {start length n : Nat} : (past? start length).any (· ≤ n) = true ↔
    start + length < UInt32.size ∧ start + length ≤ n := by
  by_cases h : start + length < UInt32.size
  · rw [past?, if_pos h, Option.any_some, decide_eq_true_eq]
    exact (and_iff_right h).symm
  · rw [past?, if_neg h, Option.any_none]
    simp only [h, false_and, Bool.false_eq_true]

theorem fits_iff {r : Region} {w h : Nat} : r.fits w h = true ↔
    (0 < r.width ∧ 0 < r.height) ∧ (r.x + r.width < UInt32.size ∧ r.x + r.width ≤ w) ∧
      r.y + r.height < UInt32.size ∧ r.y + r.height ≤ h := by
  simp only [fits, Bool.and_eq_true, past?_any_iff, decide_eq_true_eq, and_assoc]

theorem past_of_lt {start length : Nat} (h : start + length < UInt32.size) :
    past start length = start + length := by
  rw [past, past?, if_pos h, Option.getD_some]

theorem min_past {start length n : Nat} (h : n < UInt32.size) :
    min (past start length) n = min (start + length) n := by
  rw [past, past?]
  split
  · rfl
  · rw [Option.getD_none]
    omega

def parts : List String := ["x", "y", "width", "height"]

def ofJson? (j : Json) : Option Region := do
  let ps ← j.parts? parts
  let x ← (Json.part ps 0).bind Json.nat32?
  let y ← (Json.part ps 1).bind Json.nat32?
  let width ← (Json.part ps 2).bind Json.nat32?
  let height ← (Json.part ps 3).bind Json.nat32?
  pure ⟨x, y, width, height⟩

def toJson (r : Region) : Json :=
  .obj [("x", .nat r.x), ("y", .nat r.y), ("width", .nat r.width), ("height", .nat r.height)]

def text (r : Region) : String :=
  "(" ++ Text.showNat r.x ++ "," ++ Text.showNat r.y ++ " " ++ Text.showNat r.width ++ "x" ++
    Text.showNat r.height ++ ")"

end Region

end GameTimeline
