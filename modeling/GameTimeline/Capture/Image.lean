import GameTimeline.Capture.Error
import GameTimeline.Traversal

namespace GameTimeline

structure Color where
  red : UInt8
  green : UInt8
  blue : UInt8
  deriving DecidableEq, Repr, Inhabited

namespace Color

def black : Color := ⟨0, 0, 0⟩

def bytes (c : Color) : List UInt8 := [c.red, c.green, c.blue]

theorem length_bytes (c : Color) : c.bytes.length = 3 := rfl

def ofBytes : List UInt8 → List Color
  | r :: g :: b :: rest => ⟨r, g, b⟩ :: ofBytes rest
  | _ => []

end Color

structure Image where
  width : Nat
  height : Nat
  rgb : Vector UInt8 (width * height * 3)

namespace Image

variable {width height x y : Nat}

def offset (width x y : Nat) : Nat := (y * width + x) * 3

theorem offset_lt (hx : x < width) (hy : y < height) :
    offset width x y + 2 < width * height * 3 := by
  have h := Nat.mul_le_mul_right width (Nat.succ_le_of_lt hy)
  rw [Nat.succ_mul, Nat.mul_comm height] at h
  rw [offset]
  omega

def ofBytes (width height : Nat) (bytes : List UInt8) : Except CaptureError Image :=
  if h : bytes.length = width * height * 3 then
    .ok ⟨width, height, ⟨bytes.toArray, h⟩⟩
  else .error (.bufferSize bytes.length width height)

def bytes (i : Image) : List UInt8 := i.rgb.toList

def filled (width height : Nat) (c : Color) : Image :=
  ⟨width, height, ⟨((List.replicate (width * height) c).flatMap Color.bytes).toArray, by
    rw [List.size_toArray, length_flatMap_of_forall fun c _ => c.length_bytes,
      List.length_replicate]⟩⟩

def pixel? (i : Image) (x y : Nat) : Option Color :=
  if h : x < i.width ∧ y < i.height then
    have hb := offset_lt h.1 h.2
    some ⟨i.rgb[offset i.width x y], i.rgb[offset i.width x y + 1],
      i.rgb[offset i.width x y + 2]⟩
  else none

def put (rgb : Vector UInt8 (width * height * 3)) (x y : Nat) (hx : x < width) (hy : y < height)
    (c : Color) : Vector UInt8 (width * height * 3) :=
  have hb := offset_lt hx hy
  ((rgb.set (offset width x y) c.red).set (offset width x y + 1) c.green).set
    (offset width x y + 2) c.blue

def fillRegion (i : Image) (r : Region) (c : Color) : Image :=
  let columns := min (Region.past r.x r.width) i.width - r.x
  let rows := min (Region.past r.y r.height) i.height - r.y
  { i with
    rgb := rows.fold (fun dy hdy rgb =>
      columns.fold (fun dx hdx rgb =>
        put rgb (r.x + dx) (r.y + dy) (by omega) (by omega) c) rgb) i.rgb }

def segment (i : Image) (x y n : Nat) : List UInt8 :=
  (i.rgb.toArray.extract (offset i.width x y) (offset i.width x y + n * 3)).toList

theorem length_segment (i : Image) {n : Nat} (hx : x + n ≤ i.width) (hy : y < i.height) :
    (i.segment x y n).length = n * 3 := by
  have h := Nat.mul_le_mul_right i.width (Nat.succ_le_of_lt hy)
  rw [Nat.succ_mul, Nat.mul_comm i.height] at h
  rw [segment, Array.length_toList, Array.size_extract, Vector.size_toArray, offset]
  omega

def rows (i : Image) (r : Region) : List UInt8 :=
  (List.range' r.y r.height).flatMap fun y => i.segment r.x y r.width

theorem length_rows (i : Image) {r : Region} (h : r.fits i.width i.height = true) :
    (i.rows r).length = r.width * r.height * 3 := by
  obtain ⟨-, ⟨-, hwidth⟩, -, hheight⟩ := Region.fits_iff.mp h
  have hrow : ∀ y ∈ List.range' r.y r.height, (i.segment r.x y r.width).length = r.width * 3 := by
    intro y hy
    obtain ⟨-, hlt⟩ := List.mem_range'_1.mp hy
    exact i.length_segment hwidth (Nat.lt_of_lt_of_le hlt hheight)
  rw [rows, length_flatMap_of_forall hrow, List.length_range', Nat.mul_left_comm, Nat.mul_assoc]

def crop (i : Image) (r : Region) : Except CaptureError Image :=
  if h : r.fits i.width i.height = true then
    .ok ⟨r.width, r.height, ⟨(i.rows r).toArray, i.length_rows h⟩⟩
  else .error (.regionOutOfBounds none r i.width i.height)

def sum (i : Image) (channel : Color → UInt8) : Nat :=
  (Color.ofBytes i.bytes).foldl (fun n c => n + (channel c).toNat) 0

def mean (i : Image) : Color :=
  let n := max (i.width * i.height) 1
  ⟨UInt8.ofNat (i.sum Color.red / n), UInt8.ofNat (i.sum Color.green / n),
    UInt8.ofNat (i.sum Color.blue / n)⟩

end Image

end GameTimeline
