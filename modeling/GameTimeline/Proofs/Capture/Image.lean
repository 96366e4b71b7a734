import GameTimeline.Capture.Image
import GameTimeline.Proofs.Traversal
import Mathlib.Algebra.GroupWithZero.Nat
import Mathlib.Data.List.Basic

namespace GameTimeline

theorem Color.ofBytes_flatMap_bytes (l : List Color) : ofBytes (l.flatMap bytes) = l := by
  induction l with
  | nil => rfl
  | cons c l ih => exact congrArg (c :: ·) ih

theorem Color.ext_bytes {c d : Color} (h : ∀ k < 3, c.bytes[k]? = d.bytes[k]?) : c = d := by
  have hred : some c.red = some d.red := h 0 (by decide)
  have hgreen : some c.green = some d.green := h 1 (by decide)
  have hblue : some c.blue = some d.blue := h 2 (by decide)
  cases c
  cases d
  simp_all

namespace Image

variable {i j : Image} {c d : Color} {r : Region} {w h x y k n : Nat}

theorem row_div (hx : x < w) (y : Nat) : (y * w + x) / w = y := by
  rw [Nat.mul_comm, Nat.mul_add_div (Nat.zero_lt_of_lt hx), Nat.div_eq_of_lt hx, Nat.add_zero]

theorem offset_injective {x' y' k' : Nat} (hx : x < w) (hx' : x' < w) (hk : k < 3) (hk' : k' < 3)
    (hsame : offset w x y + k = offset w x' y' + k') : x = x' ∧ y = y' ∧ k = k' := by
  have hpixel : y * w + x = y' * w + x' := by
    simp only [offset] at hsame
    omega
  have hrow : y = y' := by rw [← row_div hx y, hpixel, row_div hx']
  subst hrow
  simp only [offset] at hsame
  omega

theorem bytes_getElem? (i : Image) (hk : k < i.width * i.height * 3) :
    i.bytes[k]? = some i.rgb[k] := by
  rw [bytes, Vector.getElem?_toList, Vector.getElem?_eq_getElem hk]

theorem length_bytes (i : Image) : i.bytes.length = i.width * i.height * 3 := by
  rw [bytes, Vector.length_toList]

theorem pixel?_eq_some_iff : i.pixel? x y = some c ↔ x < i.width ∧ y < i.height ∧
    ∀ k < 3, i.bytes[offset i.width x y + k]? = c.bytes[k]? := by
  by_cases hin : x < i.width ∧ y < i.height
  · have hb := offset_lt hin.1 hin.2
    obtain ⟨p, hp, hbytes⟩ : ∃ p, i.pixel? x y = some p ∧
        ∀ k < 3, i.bytes[offset i.width x y + k]? = p.bytes[k]? := by
      refine ⟨_, dif_pos hin, fun k hk => ?_⟩
      rw [i.bytes_getElem? (by omega)]
      match k with
      | 0 | 1 | 2 => rfl
    rw [hp, Option.some.injEq]
    constructor
    · rintro rfl
      exact ⟨hin.1, hin.2, hbytes⟩
    · rintro ⟨-, -, hall⟩
      exact Color.ext_bytes fun k hk => (hbytes k hk).symm.trans (hall k hk)
  · rw [pixel?, dif_neg hin]
    constructor
    · nofun
    · rintro ⟨hx, hy, -⟩
      exact absurd ⟨hx, hy⟩ hin

theorem exists_pixel (i : Image) (hin : x < i.width ∧ y < i.height) :
    ∃ c, i.pixel? x y = some c :=
  ⟨_, dif_pos hin⟩

theorem pixel?_eq_none (hout : ¬ (x < i.width ∧ y < i.height)) : i.pixel? x y = none :=
  dif_neg hout

theorem ext_bytes (hwidth : i.width = j.width) (hheight : i.height = j.height)
    (hbytes : i.bytes = j.bytes) : i = j := by
  obtain ⟨w, h, rgb⟩ := i
  obtain ⟨_, _, rgb'⟩ := j
  cases hwidth
  cases hheight
  exact congrArg (Image.mk w h) (Vector.toList_inj.mp hbytes)

theorem exists_place (hk : k < w * h * 3) : ∃ x y m, x < w ∧ y < h ∧ m < 3 ∧
    k = offset w x y + m := by
  have hw : 0 < w := Nat.pos_of_mul_pos_right (Nat.pos_of_mul_pos_right (Nat.zero_lt_of_lt hk))
  refine ⟨k / 3 % w, k / 3 / w, k % 3, Nat.mod_lt _ hw, ?_, Nat.mod_lt _ (by decide), ?_⟩
  · exact Nat.div_lt_of_lt_mul (Nat.div_lt_of_lt_mul (by omega))
  · rw [offset, Nat.mul_comm (k / 3 / w), Nat.div_add_mod, Nat.mul_comm, Nat.div_add_mod]

theorem ext_pixel? (hwidth : i.width = j.width) (hheight : i.height = j.height)
    (hpixel : ∀ x y, x < i.width → y < i.height → i.pixel? x y = j.pixel? x y) : i = j := by
  refine ext_bytes hwidth hheight (List.ext_getElem? fun k => ?_)
  by_cases hk : k < i.width * i.height * 3
  · obtain ⟨x, y, m, hx, hy, hm, rfl⟩ := exists_place hk
    obtain ⟨c, hc⟩ := i.exists_pixel ⟨hx, hy⟩
    have hc' := (hpixel x y hx hy).symm.trans hc
    rw [(pixel?_eq_some_iff.mp hc).2.2 m hm, hwidth, (pixel?_eq_some_iff.mp hc').2.2 m hm]
  · have hlen := Nat.not_lt.mp hk
    rw [List.getElem?_eq_none (by rwa [length_bytes]),
      List.getElem?_eq_none (by rwa [length_bytes, ← hwidth, ← hheight])]

def tabulate (width height : Nat) (color : Nat → Nat → Color) : Image :=
  ⟨width, height, ⟨(((List.range height).flatMap fun y =>
    (List.range width).map fun x => color x y).flatMap Color.bytes).toArray, by
      rw [List.size_toArray, length_flatMap_of_forall fun c _ => c.length_bytes,
        length_flatMap_of_forall fun y _ => by rw [List.length_map, List.length_range],
        List.length_range, Nat.mul_comm height]⟩⟩

theorem pixel?_tabulate (color : Nat → Nat → Color) :
    (tabulate w h color).pixel? x y = if x < w ∧ y < h then some (color x y) else none := by
  by_cases hin : x < w ∧ y < h
  · rw [if_pos hin, pixel?_eq_some_iff]
    refine ⟨hin.1, hin.2, fun k hk => ?_⟩
    have hcolor : ((List.range h).flatMap fun y => (List.range w).map fun x => color x y)[
        y * w + x]? = some (color x y) := by
      rw [getElem?_flatMap_of_forall (fun y _ => by rw [List.length_map, List.length_range]) hin.1,
        List.getElem?_range hin.2, Option.bind_some, List.getElem?_map, List.getElem?_range hin.1]
      rfl
    change (List.flatMap Color.bytes _)[(y * w + x) * 3 + k]? = _
    rw [getElem?_flatMap_of_forall (fun c _ => c.length_bytes) hk, hcolor]
    rfl
  · rw [if_neg hin]
    exact pixel?_eq_none hin

theorem pixel?_filled : (filled w h c).pixel? x y = if x < w ∧ y < h then some c else none := by
  by_cases hin : x < w ∧ y < h
  · rw [if_pos hin, pixel?_eq_some_iff]
    refine ⟨hin.1, hin.2, fun k hk => ?_⟩
    have hplace : y * w + x < w * h := by
      have hb := offset_lt hin.1 hin.2
      rw [offset] at hb
      omega
    change (List.flatMap Color.bytes _)[(y * w + x) * 3 + k]? = _
    rw [getElem?_flatMap_of_forall (fun c _ => c.length_bytes) hk,
      List.getElem?_replicate_of_lt hplace]
    rfl
  · rw [if_neg hin]
    exact pixel?_eq_none hin

section Fill

variable {rgb : Vector UInt8 (w * h * 3)} {a b : Nat}

theorem put_getElem? (hx : x < w) (hy : y < h) (ha : a < w) (hk : k < 3) :
    (put rgb x y hx hy c)[offset w a b + k]? =
      if a = x ∧ b = y then c.bytes[k]? else rgb[offset w a b + k]? := by
  have hb := offset_lt hx hy
  simp only [put, Vector.getElem?_set]
  by_cases hsame : a = x ∧ b = y
  · obtain ⟨rfl, rfl⟩ := hsame
    match k with
    | 0 | 1 | 2 => simp [Color.bytes]
  · have hne : ∀ m < 3, offset w x y + m ≠ offset w a b + k := by
      intro m hm heq
      obtain ⟨rfl, rfl, -⟩ := offset_injective hx ha hm hk heq
      exact hsame ⟨rfl, rfl⟩
    rw [if_neg hsame, if_neg (hne 2 (by decide)), if_neg (hne 1 (by decide)),
      if_neg (by simpa using hne 0 (by decide))]

theorem pixel?_put (hx : x < w) (hy : y < h) : (Image.mk w h (put rgb x y hx hy c)).pixel? a b =
    if a = x ∧ b = y then some c else (Image.mk w h rgb).pixel? a b := by
  by_cases hin : a < w ∧ b < h
  · obtain ⟨old, hold⟩ := (Image.mk w h rgb).exists_pixel hin
    have hshown : (Image.mk w h (put rgb x y hx hy c)).pixel? a b =
        some (if a = x ∧ b = y then c else old) := by
      refine pixel?_eq_some_iff.mpr ⟨hin.1, hin.2, fun k hk => ?_⟩
      have hbyte := (pixel?_eq_some_iff.mp hold).2.2 k hk
      rw [bytes, Vector.getElem?_toList] at hbyte ⊢
      rw [put_getElem? hx hy hin.1 hk]
      split
      · rfl
      · exact hbyte
    rw [hshown, hold]
    split <;> rfl
  · have hother : ¬ (a = x ∧ b = y) := by
      rintro ⟨rfl, rfl⟩
      exact hin ⟨hx, hy⟩
    rw [if_neg hother, pixel?_eq_none hin, pixel?_eq_none hin]

theorem pixel?_fold_row (hx : ∀ dx < n, x + dx < w) (hy : y < h) :
    (Image.mk w h (n.fold (fun dx hdx rgb => put rgb (x + dx) y (hx dx hdx) hy c) rgb)).pixel? a b =
      if b = y ∧ x ≤ a ∧ a < x + n then some c else (Image.mk w h rgb).pixel? a b := by
  induction n with
  | zero =>
      have hnone : ¬ (b = y ∧ x ≤ a ∧ a < x + 0) := by omega
      rw [if_neg hnone]
      rfl
  | succ n ih =>
      rw [Nat.fold_succ, pixel?_put, ih fun dx hdx => hx dx (Nat.lt_succ_of_lt hdx)]
      by_cases hlast : a = x + n ∧ b = y
      · have hcovered : b = y ∧ x ≤ a ∧ a < x + (n + 1) := by omega
        rw [if_pos hlast, if_pos hcovered]
      · rw [if_neg hlast]
        congr 1
        simp only [eq_iff_iff]
        omega

theorem pixel?_fold_rows {m : Nat} (hx : ∀ dx < n, x + dx < w) (hy : ∀ dy < m, y + dy < h) :
    (Image.mk w h (m.fold (fun dy hdy rgb => n.fold (fun dx hdx rgb =>
      put rgb (x + dx) (y + dy) (hx dx hdx) (hy dy hdy) c) rgb) rgb)).pixel? a b =
        if (y ≤ b ∧ b < y + m) ∧ x ≤ a ∧ a < x + n then some c
        else (Image.mk w h rgb).pixel? a b := by
  induction m with
  | zero =>
      have hnone : ¬ ((y ≤ b ∧ b < y + 0) ∧ x ≤ a ∧ a < x + n) := by omega
      rw [if_neg hnone]
      rfl
  | succ m ih =>
      rw [Nat.fold_succ, pixel?_fold_row hx, ih fun dy hdy => hy dy (Nat.lt_succ_of_lt hdy)]
      by_cases hlast : b = y + m ∧ x ≤ a ∧ a < x + n
      · have hcovered : (y ≤ b ∧ b < y + (m + 1)) ∧ x ≤ a ∧ a < x + n := by omega
        rw [if_pos hlast, if_pos hcovered]
      · rw [if_neg hlast]
        congr 1
        simp only [eq_iff_iff]
        omega

end Fill

theorem covers_iff : r.covers x y = true ↔
    (r.y ≤ y ∧ y < r.y + r.height) ∧ r.x ≤ x ∧ x < r.x + r.width := by
  simp only [Region.covers, Bool.and_eq_true, decide_eq_true_eq]
  omega

theorem pixel?_fillRegion_of_min
    (hcolumns : min (Region.past r.x r.width) i.width = min (r.x + r.width) i.width)
    (hrows : min (Region.past r.y r.height) i.height = min (r.y + r.height) i.height) :
    (i.fillRegion r c).pixel? x y =
      (i.pixel? x y).map fun old => if r.covers x y then c else old := by
  have hfill : (i.fillRegion r c).pixel? x y =
      if (r.y ≤ y ∧ y < r.y + (min (Region.past r.y r.height) i.height - r.y)) ∧
          r.x ≤ x ∧ x < r.x + (min (Region.past r.x r.width) i.width - r.x) then some c
      else i.pixel? x y :=
    pixel?_fold_rows (fun _ _ => by omega) (fun _ _ => by omega)
  rw [hcolumns, hrows] at hfill
  by_cases hin : x < i.width ∧ y < i.height
  · obtain ⟨old, hold⟩ := i.exists_pixel hin
    have hclip : ((r.y ≤ y ∧ y < r.y + (min (r.y + r.height) i.height - r.y)) ∧
        r.x ≤ x ∧ x < r.x + (min (r.x + r.width) i.width - r.x)) ↔ r.covers x y = true := by
      rw [covers_iff]
      omega
    rw [hfill, hold]
    simp only [hclip, Option.map_some]
    split <;> rfl
  · rw [pixel?_eq_none hin, Option.map_none]
    exact pixel?_eq_none hin

theorem pixel?_fillRegion (hwidth : i.width < UInt32.size) (hheight : i.height < UInt32.size) :
    (i.fillRegion r c).pixel? x y =
      (i.pixel? x y).map fun old => if r.covers x y then c else old :=
  pixel?_fillRegion_of_min (Region.min_past hwidth) (Region.min_past hheight)

theorem pixel?_fillRegion_of_fits (hfits : r.fits w h = true) :
    (i.fillRegion r c).pixel? x y =
      (i.pixel? x y).map fun old => if r.covers x y then c else old := by
  obtain ⟨-, ⟨hright, -⟩, hbottom, -⟩ := Region.fits_iff.mp hfits
  exact pixel?_fillRegion_of_min (by rw [Region.past_of_lt hright])
    (by rw [Region.past_of_lt hbottom])

def cut (i : Image) (r : Region) : Image :=
  tabulate r.width r.height fun x y => (i.pixel? (r.x + x) (r.y + y)).getD .black

theorem segment_getElem? (hx : x + n ≤ i.width) (hy : y < i.height) {m : Nat} (hm : m < n)
    (hk : k < 3) :
    (i.segment x y n)[m * 3 + k]? = i.bytes[offset i.width (x + m) y + k]? := by
  have hlength := i.length_segment hx hy
  have hin : m * 3 + k < (i.segment x y n).length := by omega
  have hplace : offset i.width x y + (m * 3 + k) = offset i.width (x + m) y + k := by
    simp only [offset]
    omega
  rw [segment, Array.length_toList, Array.size_extract] at hin
  rw [segment, Array.getElem?_toList, Array.getElem?_extract, if_pos hin, hplace]
  exact Array.getElem?_toList.symm

theorem rows_getElem? (hfits : r.fits i.width i.height = true) (hx : x < r.width)
    (hy : y < r.height) (hk : k < 3) :
    (i.rows r)[offset r.width x y + k]? = i.bytes[offset i.width (r.x + x) (r.y + y) + k]? := by
  obtain ⟨-, ⟨-, hwidth⟩, -, hheight⟩ := Region.fits_iff.mp hfits
  have hrow : ∀ y ∈ List.range' r.y r.height, (i.segment r.x y r.width).length = r.width * 3 := by
    intro y hy
    obtain ⟨-, hlt⟩ := List.mem_range'_1.mp hy
    exact i.length_segment hwidth (by omega)
  have hplace : offset r.width x y + k = y * (r.width * 3) + (x * 3 + k) := by
    rw [offset, Nat.add_mul, Nat.mul_assoc, Nat.add_assoc]
  have hin : x * 3 + k < r.width * 3 := by omega
  rw [hplace, rows, getElem?_flatMap_of_forall hrow hin, List.getElem?_range' hy, Option.bind_some,
    Nat.one_mul, segment_getElem? hwidth (by omega) hx hk]

theorem pixel?_cut (hfits : r.fits i.width i.height = true) (hx : x < r.width) (hy : y < r.height) :
    (i.cut r).pixel? x y = i.pixel? (r.x + x) (r.y + y) := by
  obtain ⟨-, ⟨-, hright⟩, -, hbottom⟩ := Region.fits_iff.mp hfits
  have hin : r.x + x < i.width ∧ r.y + y < i.height := by omega
  obtain ⟨p, hp⟩ := i.exists_pixel hin
  rw [cut, pixel?_tabulate, if_pos ⟨hx, hy⟩, hp, Option.getD_some]

theorem crop_of_fits (hfits : r.fits i.width i.height = true) : i.crop r = .ok (i.cut r) := by
  rw [crop, dif_pos hfits, Except.ok.injEq]
  refine ext_pixel? rfl rfl fun x y (hx : x < r.width) (hy : y < r.height) => ?_
  obtain ⟨p, hp⟩ := (i.cut r).exists_pixel ⟨hx, hy⟩
  rw [hp]
  rw [pixel?_cut hfits hx hy] at hp
  refine pixel?_eq_some_iff.mpr ⟨hx, hy, fun k hk => ?_⟩
  exact (rows_getElem? hfits hx hy hk).trans ((pixel?_eq_some_iff.mp hp).2.2 k hk)

theorem bytes_filled : (filled w h c).bytes = (List.replicate (w * h) c).flatMap Color.bytes := rfl

theorem sum_eq (i : Image) (channel : Color → UInt8) :
    i.sum channel = ((Color.ofBytes i.bytes).map fun p => (channel p).toNat).sum := by
  rw [sum, List.sum_eq_foldl, List.foldl_map]

theorem sum_filled (channel : Color → UInt8) :
    (filled w h c).sum channel = w * h * (channel c).toNat := by
  rw [sum_eq, bytes_filled, Color.ofBytes_flatMap_bytes, List.map_replicate,
    List.sum_replicate_nat]

theorem mean_filled (hw : 0 < w) (hh : 0 < h) : (filled w h c).mean = c := by
  have hpos : 0 < w * h := Nat.mul_pos hw hh
  have hsize : max (w * h) 1 = w * h := Nat.max_eq_left hpos
  have hchannel (channel : Color → UInt8) :
      UInt8.ofNat ((filled w h c).sum channel / max (w * h) 1) = channel c := by
    rw [sum_filled, hsize, Nat.mul_div_cancel_left _ hpos, UInt8.ofNat_toNat]
  simp only [mean]
  exact congr (congrArg₂ Color.mk (hchannel Color.red) (hchannel Color.green)) (hchannel Color.blue)

theorem cut_of_patch (hpatch : ∀ x y, r.covers x y = true → i.pixel? x y = some c) :
    i.cut r = filled r.width r.height c := by
  refine ext_pixel? rfl rfl fun x y hx hy => ?_
  have hcovers : r.covers (r.x + x) (r.y + y) = true :=
    covers_iff.mpr ⟨⟨Nat.le_add_right .., Nat.add_lt_add_left hy _⟩,
      Nat.le_add_right .., Nat.add_lt_add_left hx _⟩
  rw [cut, pixel?_tabulate, pixel?_filled, hpatch _ _ hcovers]
  rfl

end Image

end GameTimeline
