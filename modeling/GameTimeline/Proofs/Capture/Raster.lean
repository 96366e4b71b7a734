import GameTimeline.Proofs.Capture.Image
import Mathlib.Algebra.Order.BigOperators.Group.Finset

namespace GameTimeline

namespace Image

open Finset (range)

variable {i j : Image} {c : Color} {r : Region} {w h x y : Nat} {channel : Color → UInt8}

theorem ofBytes_eq_ok_iff {bytes : List UInt8} : ofBytes w h bytes = .ok i ↔
    bytes.length = w * h * 3 ∧ i.width = w ∧ i.height = h ∧ i.bytes = bytes := by
  rw [ofBytes]
  split
  case isTrue hlength =>
    rw [Except.ok.injEq, and_iff_right hlength]
    constructor
    · rintro rfl
      exact ⟨rfl, rfl, rfl⟩
    · rintro ⟨hw, hh, hbytes⟩
      exact ext_bytes hw.symm hh.symm hbytes.symm
  case isFalse hlength =>
    constructor
    · intro hread
      cases hread
    · exact fun hread => absurd hread.1 hlength

theorem crop_eq_ok_iff : i.crop r = .ok j ↔ r.fits i.width i.height = true ∧ j = i.cut r := by
  by_cases hfits : r.fits i.width i.height = true
  · rw [crop_of_fits hfits, Except.ok.injEq, and_iff_right hfits, eq_comm]
  · rw [crop, dif_neg hfits]
    constructor
    · intro hcrop
      cases hcrop
    · exact fun hcut => absurd hcut.1 hfits

theorem crop_eq_error (hfits : ¬ r.fits i.width i.height = true) :
    i.crop r = .error (.regionOutOfBounds none r i.width i.height) :=
  dif_neg hfits

inductive Made : Image → Prop
  | ofBytes {w h : Nat} {bytes : List UInt8} {i : Image} (hw : w < UInt32.size)
      (hh : h < UInt32.size) (hread : Image.ofBytes w h bytes = .ok i) : Made i
  | filled {w h : Nat} (hw : w < UInt32.size) (hh : h < UInt32.size) (c : Color) :
      Made (.filled w h c)
  | fillRegion {i : Image} (hi : Made i) (r : Region) (c : Color) : Made (i.fillRegion r c)
  | crop {i j : Image} {r : Region} (hi : Made i) (hcrop : i.crop r = .ok j) : Made j

theorem Made.size_lt (hi : Made i) : i.width < UInt32.size ∧ i.height < UInt32.size := by
  induction hi with
  | ofBytes hw hh hread =>
      obtain ⟨-, rfl, rfl, -⟩ := ofBytes_eq_ok_iff.mp hread
      exact ⟨hw, hh⟩
  | filled hw hh c => exact ⟨hw, hh⟩
  | fillRegion _ r c ih => exact ih
  | @crop i j r _ hcrop _ =>
      obtain ⟨hfits, rfl⟩ := crop_eq_ok_iff.mp hcrop
      obtain ⟨-, ⟨hright, -⟩, hbottom, -⟩ := Region.fits_iff.mp hfits
      exact ⟨Nat.lt_of_le_of_lt (Nat.le_add_left ..) hright,
        Nat.lt_of_le_of_lt (Nat.le_add_left ..) hbottom⟩

theorem crop_isOk_iff (hi : Made i) : (∃ j, i.crop r = .ok j) ↔
    0 < r.width ∧ 0 < r.height ∧ r.x + r.width ≤ i.width ∧ r.y + r.height ≤ i.height := by
  have hsize := hi.size_lt
  simp only [crop_eq_ok_iff, exists_eq_right, Region.fits_iff]
  omega

theorem pixel?_fillRegion_inside (hi : Made i) (hx : x < i.width) (hy : y < i.height) :
    (i.fillRegion r c).pixel? x y =
      if (r.x ≤ x ∧ x < r.x + r.width) ∧ r.y ≤ y ∧ y < r.y + r.height then some c
      else i.pixel? x y := by
  obtain ⟨old, hold⟩ := i.exists_pixel ⟨hx, hy⟩
  rw [pixel?_fillRegion hi.size_lt.1 hi.size_lt.2, hold, Option.map_some, apply_ite some]
  simp only [covers_iff, and_comm]

section Place

theorem offset_le (hx : x < i.width) (hy : y < i.height) :
    offset i.width x y + 3 ≤ i.bytes.length := by
  have hlast := offset_lt hx hy
  rw [length_bytes]
  omega

theorem row_le (hfits : r.fits i.width i.height = true) (hy : y < r.height) :
    offset i.width r.x (r.y + y) + r.width * 3 ≤ i.bytes.length := by
  obtain ⟨⟨hwidth, -⟩, ⟨-, hright⟩, -, hbottom⟩ := Region.fits_iff.mp hfits
  have hlast : offset i.width (r.x + (r.width - 1)) (r.y + y) + 3 ≤ i.bytes.length :=
    offset_le (by omega) (by omega)
  simp only [offset] at hlast ⊢
  omega

end Place

section Average

theorem tabulate_pixel? (i : Image) :
    tabulate i.width i.height (fun x y => (i.pixel? x y).getD .black) = i := by
  refine ext_pixel? rfl rfl fun x y (hx : x < i.width) (hy : y < i.height) => ?_
  obtain ⟨p, hp⟩ := i.exists_pixel ⟨hx, hy⟩
  rw [pixel?_tabulate, if_pos ⟨hx, hy⟩, hp, Option.getD_some]

def total (i : Image) (channel : Color → UInt8) : Nat :=
  ∑ y ∈ range i.height, ∑ x ∈ range i.width, (channel ((i.pixel? x y).getD .black)).toNat

theorem sum_tabulate (color : Nat → Nat → Color) : (tabulate w h color).sum channel =
    ∑ y ∈ range h, ∑ x ∈ range w, (channel (color x y)).toNat := by
  have hbytes : (tabulate w h color).bytes = ((List.range h).flatMap fun y =>
    (List.range w).map fun x => color x y).flatMap Color.bytes := rfl
  rw [sum_eq, hbytes, Color.ofBytes_flatMap_bytes, List.map_flatMap, List.flatMap_def,
    List.sum_flatten, List.map_map]
  simp only [List.map_map, Function.comp_def]
  rfl

theorem sum_eq_total (i : Image) (channel : Color → UInt8) : i.sum channel = i.total channel := by
  rw [total, ← sum_tabulate, tabulate_pixel?]

theorem sum_le (i : Image) (channel : Color → UInt8) :
    i.sum channel ≤ 255 * (i.width * i.height) := by
  have hbyte (x y : Nat) : (channel ((i.pixel? x y).getD .black)).toNat ≤ 255 :=
    Nat.le_of_lt_succ (UInt8.toNat_lt _)
  have hrow (y : Nat) : ∑ x ∈ range i.width, (channel ((i.pixel? x y).getD .black)).toNat ≤
      i.width * 255 := by
    simpa using Finset.sum_le_card_nsmul (range i.width) _ 255 fun x _ => hbyte x y
  have hrows : i.total channel ≤ i.height * (i.width * 255) := by
    simpa [total] using
      Finset.sum_le_card_nsmul (range i.height) _ (i.width * 255) fun y _ => hrow y
  calc i.sum channel
    _ ≤ i.height * (i.width * 255) := by rwa [sum_eq_total]
    _ = 255 * (i.width * i.height) := by rw [← Nat.mul_assoc, Nat.mul_comm, Nat.mul_comm i.height]

theorem sum_lt (channel : Color → UInt8) (hbytes : i.bytes.length < 2 ^ 57) :
    i.sum channel < UInt64.size := by
  have hsum := i.sum_le channel
  rw [length_bytes] at hbytes
  rw [UInt64.size]
  omega

theorem toNat_average (i : Image) (channel : Color → UInt8) :
    (UInt8.ofNat (i.sum channel / max (i.width * i.height) 1)).toNat =
      i.sum channel / (i.width * i.height) := by
  have hsum := i.sum_le channel
  rcases Nat.eq_zero_or_pos (i.width * i.height) with hempty | hpos
  · -- without pixels the sum is zero, and zero divided by zero is zero
    rw [hempty, Nat.le_zero] at hsum
    rw [hsum, Nat.zero_div, Nat.zero_div]
    rfl
  · -- no byte is larger than 255, so the average is none that the byte would cut
    rw [Nat.max_eq_left hpos]
    exact UInt8.toNat_ofNat_of_lt'
      (Nat.lt_succ_of_le (Nat.div_le_of_le_mul (Nat.mul_comm 255 _ ▸ hsum)))

theorem toNat_mean (hchannel : channel ∈ [Color.red, Color.green, Color.blue]) :
    (channel i.mean).toNat = i.sum channel / (i.width * i.height) := by
  simp only [List.mem_cons, List.not_mem_nil, or_false] at hchannel
  rcases hchannel with rfl | rfl | rfl
  all_goals exact i.toNat_average _

theorem mean_of_uniform (hw : 0 < i.width) (hh : 0 < i.height)
    (huniform : ∀ x y, x < i.width → y < i.height → i.pixel? x y = some c) : i.mean = c := by
  have hfilled : i = filled i.width i.height c := by
    refine ext_pixel? rfl rfl fun x y hx hy => ?_
    rw [huniform x y hx hy, pixel?_filled, if_pos ⟨hx, hy⟩]
  rw [hfilled]
  exact mean_filled hw hh

end Average

theorem operations_pixelwise (hi : Made i) (r : Region) (c : Color) :
    (i.bytes.length = i.width * i.height * 3 ∧
      (∀ x y, x < i.width → y < i.height → offset i.width x y + 3 ≤ i.bytes.length) ∧
      ∀ x y p, i.pixel? x y = some p ↔ x < i.width ∧ y < i.height ∧
        ∀ k < 3, i.bytes[offset i.width x y + k]? = p.bytes[k]?) ∧
    (((∃ j, i.crop r = .ok j) ↔ 0 < r.width ∧ 0 < r.height ∧
        r.x + r.width ≤ i.width ∧ r.y + r.height ≤ i.height) ∧
      (UInt32.size ≤ r.x + r.width ∨ UInt32.size ≤ r.y + r.height →
        i.crop r = .error (.regionOutOfBounds none r i.width i.height)) ∧
      ∀ j, i.crop r = .ok j → j.width = r.width ∧ j.height = r.height ∧
        (∀ y < r.height, offset i.width r.x (r.y + y) + r.width * 3 ≤ i.bytes.length) ∧
        ∀ x y, x < r.width → y < r.height → j.pixel? x y = i.pixel? (r.x + x) (r.y + y)) ∧
    ((i.fillRegion r c).width = i.width ∧ (i.fillRegion r c).height = i.height ∧
      ∀ x y, x < i.width → y < i.height → (i.fillRegion r c).pixel? x y =
        if (r.x ≤ x ∧ x < r.x + r.width) ∧ r.y ≤ y ∧ y < r.y + r.height then some c
        else i.pixel? x y) ∧
    (∀ channel ∈ [Color.red, Color.green, Color.blue],
      (channel i.mean).toNat = i.total channel / (i.width * i.height) ∧
      i.sum channel = i.total channel ∧ (i.bytes.length < 2 ^ 57 → i.sum channel < UInt64.size)) ∧
    (0 < i.width → 0 < i.height →
      (∀ x y, x < i.width → y < i.height → i.pixel? x y = some c) → i.mean = c) := by
  refine ⟨⟨i.length_bytes, fun x y hx hy => offset_le hx hy, fun x y p => pixel?_eq_some_iff⟩,
    ⟨crop_isOk_iff hi, ?_, ?_⟩, ⟨rfl, rfl, ?_⟩, ?_, mean_of_uniform⟩
  · intro hpast
    refine crop_eq_error fun hfits => ?_
    obtain ⟨-, ⟨hright, -⟩, hbottom, -⟩ := Region.fits_iff.mp hfits
    omega
  · intro j hcrop
    obtain ⟨hfits, rfl⟩ := crop_eq_ok_iff.mp hcrop
    exact ⟨rfl, rfl, fun y hy => row_le hfits hy, fun x y hx hy => pixel?_cut hfits hx hy⟩
  · exact fun x y hx hy => pixel?_fillRegion_inside hi hx hy
  · intro channel hchannel
    refine ⟨?_, i.sum_eq_total channel, sum_lt channel⟩
    rw [← sum_eq_total, toNat_mean hchannel]

theorem operations_pixelwise_corner : ∃ i j : Image,
    i = (filled 3 2 .black).fillRegion ⟨2, 1, 4294967295, 5⟩ ⟨200, 100, 0⟩ ∧
    i.bytes.length = 18 ∧ i.pixel? 1 1 = some .black ∧ i.pixel? 2 1 = some ⟨200, 100, 0⟩ ∧
    i.crop ⟨2, 1, 4294967295, 5⟩ = .error (.regionOutOfBounds none ⟨2, 1, 4294967295, 5⟩ 3 2) ∧
    i.crop ⟨2, 1, 1, 1⟩ = .ok j ∧ j.pixel? 0 0 = some ⟨200, 100, 0⟩ ∧
    j.mean = ⟨200, 100, 0⟩ := by
  let far : Region := ⟨2, 1, 4294967295, 5⟩
  let c : Color := ⟨200, 100, 0⟩
  have hblank : Made (filled 3 2 .black) := .filled (by decide) (by decide) _
  let i := (filled 3 2 .black).fillRegion far c
  have hi : Made i := hblank.fillRegion far c
  obtain ⟨-, -, ⟨-, -, hshown⟩, -, -⟩ := operations_pixelwise hblank far c
  obtain ⟨⟨hlength, -, -⟩, ⟨-, hrefused, -⟩, -⟩ := operations_pixelwise hi far c
  obtain ⟨-, ⟨hcut, -, hpixel⟩, -⟩ := operations_pixelwise hi ⟨2, 1, 1, 1⟩ c
  obtain ⟨j, hj⟩ := hcut.mpr (by decide)
  obtain ⟨hwidth, hheight, -, hcorner⟩ := hpixel j hj
  replace hwidth : j.width = 1 := hwidth
  replace hheight : j.height = 1 := hheight
  have hold : i.pixel? 1 1 = some .black := by
    rw [hshown 1 1 (by decide) (by decide), pixel?_filled]
    rfl
  have hnew : i.pixel? 2 1 = some c := hshown 2 1 (by decide) (by decide)
  have hj00 : j.pixel? 0 0 = some c := (hcorner 0 0 (by decide) (by decide)).trans hnew
  obtain ⟨-, -, -, -, huniform⟩ := operations_pixelwise (hi.crop hj) far c
  refine ⟨i, j, rfl, hlength, hold, hnew, hrefused (.inl (by decide)), hj, hj00,
    huniform (by omega) (by omega) fun x y hx hy => ?_⟩
  obtain ⟨rfl, rfl⟩ : x = 0 ∧ y = 0 := by omega
  exact hj00

end Image

end GameTimeline
