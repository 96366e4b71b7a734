import GameTimeline.Capture.Synthetic
import GameTimeline.Proofs.Capture.Sampling

namespace GameTimeline

namespace Image

theorem size_foldl_fillRegion (l : List (String × Region)) (color : String → Color) (i : Image) :
    (l.foldl (fun i e => i.fillRegion e.2 (color e.1)) i).width = i.width ∧
      (l.foldl (fun i e => i.fillRegion e.2 (color e.1)) i).height = i.height := by
  induction l generalizing i with
  | nil => exact ⟨rfl, rfl⟩
  | cons e l ih => exact ih (i.fillRegion e.2 (color e.1))

theorem pixel?_foldl_fillRegion {l : List (String × Region)} {w h : Nat}
    (hfits : ∀ e ∈ l, e.2.fits w h = true) (color : String → Color) (i : Image) (x y : Nat) :
    (l.foldl (fun i e => i.fillRegion e.2 (color e.1)) i).pixel? x y =
      (i.pixel? x y).map fun old =>
        l.foldl (fun old e => if e.2.covers x y then color e.1 else old) old := by
  induction l generalizing i with
  | nil => simp
  | cons e l ih =>
      obtain ⟨he, hl⟩ := List.forall_mem_cons.mp hfits
      rw [List.foldl_cons, ih hl, pixel?_fillRegion_of_fits he, Option.map_map]
      rfl

theorem foldl_covers {l : List (String × Region)} (color : String → Color) {x y : Nat} {c : Color}
    (hall : ∀ e ∈ l, e.2.covers x y = true → color e.1 = c)
    (hsome : ∃ e ∈ l, e.2.covers x y = true) (old : Color) :
    l.foldl (fun old e => if e.2.covers x y then color e.1 else old) old = c := by
  have hkeep (l : List (String × Region))
      (hall : ∀ e ∈ l, e.2.covers x y = true → color e.1 = c) :
      l.foldl (fun old e => if e.2.covers x y then color e.1 else old) c = c := by
    induction l with
    | nil => rfl
    | cons e l ih =>
        have hl := ih fun a ha => hall a (List.mem_cons_of_mem _ ha)
        by_cases he : e.2.covers x y = true
        · simp [he, hall e (List.mem_cons_self ..) he, hl]
        · simp [he, hl]
  induction l generalizing old with
  | nil =>
      obtain ⟨e, he, -⟩ := hsome
      cases he
  | cons e l ih =>
      have hl : ∀ a ∈ l, a.2.covers x y = true → color a.1 = c :=
        fun a ha => hall a (List.mem_cons_of_mem _ ha)
      rw [List.foldl_cons]
      by_cases he : e.2.covers x y = true
      · rw [if_pos he, hall e (List.mem_cons_self ..) he]
        exact hkeep l hl
      · rw [if_neg he]
        apply ih hl
        obtain ⟨a, ha, hcovers⟩ := hsome
        rcases List.mem_cons.mp ha with rfl | ha
        · exact absurd hcovers he
        · exact ⟨a, ha, hcovers⟩

end Image

namespace PixelCode

theorem value_encode (v : UInt16) (b : UInt8) :
    value { encode (some v) with blue := b } = v := by
  have hv := v.toNat_lt
  have hhigh : (v >>> 8).toNat = v.toNat / 256 := by simp [Nat.shiftRight_eq_div_pow]
  apply UInt16.toNat.inj
  simp only [value, encode, UInt16.toNat_ofNat', UInt16.toNat_toUInt8, hhigh]
  omega

end PixelCode

namespace RowLayout

variable {version : String} {participant : Option Nat} {fields : List String}

theorem covers_cellAt {i x y : Nat} : (cellAt i).covers x y = true ↔ x / cell = i ∧ y < cell := by
  have hcell : cell = 8 := rfl
  simp only [Region.covers, cellAt, Bool.and_eq_true, decide_eq_true_eq, hcell]
  omega

theorem mem_sortNames {n : String} : n ∈ sortNames fields ↔ n ∈ fields :=
  (List.mergeSort_perm fields _).mem_iff

theorem keys_row {n : String} :
    n ∈ (row version participant fields).layout.keys ↔ n ∈ fields := by
  rw [row, Table.mem_keys_ofList]
  simp [Function.comp_def, mem_sortNames]

theorem cell_of_mem_row {e : String × Region}
    (he : e ∈ (row version participant fields).layout.entries) :
    ∃ i, (sortNames fields)[i]? = some e.1 ∧ e.2 = cellAt i := by
  obtain ⟨p, hp, rfl⟩ := List.mem_map.mp (Table.mem_of_mem_ofList he)
  exact ⟨p.2, List.mem_zipIdx_iff_getElem?.mp hp, rfl⟩

theorem disjoint_row {e d : String × Region} {x y : Nat}
    (he : e ∈ (row version participant fields).layout.entries)
    (hd : d ∈ (row version participant fields).layout.entries)
    (hex : e.2.covers x y = true) (hdx : d.2.covers x y = true) : e.1 = d.1 := by
  obtain ⟨i, hi, hcell⟩ := cell_of_mem_row he
  obtain ⟨j, hj, hcell'⟩ := cell_of_mem_row hd
  rw [hcell, covers_cellAt] at hex
  rw [hcell', covers_cellAt] at hdx
  have hij : i = j := hex.1.symm.trans hdx.1
  subst hij
  exact Option.some.inj (hi.symm.trans hj)

theorem resolve_eq_ok_iff {l : RowLayout} {session : Session} {width height : Nat}
    {layout : Layout} : l.resolve session width height = .ok layout ↔
      layout = l.layout ∧ session.gameVersion = l.version ∧
        (l.participant.isSome → session.participant = l.participant) := by
  rw [resolve]
  split
  · rename_i hversion
    simp [hversion]
  · rename_i hversion
    split
    · rename_i hplayer
      simp [hplayer.1, hplayer.2]
    · rename_i hplayer
      rw [not_not] at hversion
      rw [not_and, not_not] at hplayer
      rw [Except.ok.injEq, eq_comm]
      exact (and_iff_left ⟨hversion, hplayer⟩).symm

theorem resolve_eq_ok {l : RowLayout} {session : Session} {width height : Nat} {layout : Layout}
    (h : l.resolve session width height = .ok layout) : layout = l.layout :=
  (resolve_eq_ok_iff.mp h).1

end RowLayout

namespace SyntheticVideo

variable {v : SyntheticVideo} {version : String} {participant : Option Nat} {fields : List String}
  {e : String × Region} {index : Nat}

theorem size_paint (v : SyntheticVideo) (index : Nat) :
    (v.paint index).width = v.layout.width ∧ (v.paint index).height = RowLayout.height :=
  Image.size_foldl_fillRegion _ (v.color · index) _

theorem cut_paint (hlayout : v.layout = .row version participant fields)
    (hfits : ∀ e ∈ v.layout.layout.entries, e.2.fits v.layout.width RowLayout.height = true)
    (he : e ∈ v.layout.layout.entries) :
    (v.paint index).cut e.2 = .filled e.2.width e.2.height (v.color e.1 index) := by
  apply Image.cut_of_patch
  intro x y hcovers
  have hinside : x < v.layout.width ∧ y < RowLayout.height := by
    have hinside := Region.fits_iff.mp (hfits e he)
    have hcovered := Image.covers_iff.mp hcovers
    omega
  rw [paint, Image.pixel?_foldl_fillRegion hfits (v.color · index), Image.pixel?_filled,
    if_pos hinside, Option.map_some]
  refine congrArg some (Image.foldl_covers (v.color · index) ?_ ⟨e, he, hcovers⟩ _)
  intro d hd hcovers'
  rw [hlayout] at he hd
  exact congrArg (v.color · index) (RowLayout.disjoint_row hd he hcovers' hcovers)

theorem one_le_marker {field : String} {m : UInt8} (h : v.marker field index = some m) : 1 ≤ m := by
  obtain ⟨d, -, rfl⟩ := Option.map_eq_some_iff.mp h
  have hmax : max d.marker 1 = if d.marker ≤ 1 then 1 else d.marker := rfl
  rw [hmax]
  split
  · exact UInt8.le_refl 1
  · rename_i hlow
    exact UInt8.le_of_lt (UInt8.not_le.mp hlow)

theorem recognize_color (v : SyntheticVideo) (field : String) {w h : Nat} (hw : 0 < w) (hh : 0 < h) :
    PixelCode.recognizer.recognize field (.filled w h (v.color field index)) =
      ⟨(v.shown field index).map fun x => .int (Int64.ofNat x.toNat),
        (v.shown field index).map fun _ => PixelCode.clarity ((v.marker field index).getD 255)⟩ := by
  have hmarker : (v.marker field index).getD 255 ≠ 0 := by
    cases hm : v.marker field index with
    | none => decide
    | some m =>
        rintro rfl
        exact absurd (one_le_marker hm) (by decide)
  simp only [PixelCode.recognizer, Image.mean_filled hw hh, color]
  cases hshown : v.shown field index with
  | none => rfl
  | some x => simp [PixelCode.decode, hmarker, PixelCode.value_encode]

def Recorded (v : SyntheticVideo) (f : RawFrame) (n : String) : Prop :=
  f.reading n = (v.shown n f.frame).map (fun x => .int (Int64.ofNat x.toNat)) ∧
    f.confidenceOf n = (v.shown n f.frame).map fun _ =>
      Float32.ofNat ((v.marker n f.frame).getD 255).toNat / 255

theorem recorded_recordOf (hlayout : v.layout = .row version participant fields) {field : String}
    {timestamp : Float} (hfield : field ∈ fields)
    (hfits : ∀ e ∈ v.layout.layout.entries, e.2.fits v.layout.width RowLayout.height = true) :
    v.Recorded (SampledStream.recordOf index timestamp
      (SampledStream.found v.layout.layout PixelCode.recognizer (v.paint index))) field := by
  have hkey : field ∈ v.layout.layout.keys := hlayout ▸ RowLayout.keys_row.mpr hfield
  obtain ⟨r, hr⟩ := Table.mem_keys_iff.mp hkey
  have he := Table.get?_eq_some_iff.mp hr
  have hsize : 0 < r.width ∧ 0 < r.height := (Region.fits_iff.mp (hfits _ he)).1
  have hfound : (SampledStream.found v.layout.layout PixelCode.recognizer (v.paint index)).get?
      field = some ⟨(v.shown field index).map fun x => .int (Int64.ofNat x.toNat),
        (v.shown field index).map fun _ => PixelCode.clarity ((v.marker field index).getD 255)⟩ := by
    rw [SampledStream.found, Table.get?_map, hr, Option.map_some, cut_paint hlayout hfits he,
      recognize_color v field hsize.1 hsize.2]
  rw [Recorded, SampledStream.recordOf_reading, SampledStream.recordOf_confidence,
    SampledStream.recordOf_frame, hfound]
  refine ⟨rfl, ?_⟩
  cases v.shown field index <;> rfl

theorem sample_source {s : SampledStream} {session : Session} {plan : SamplingPlan}
    (h : SampledStream.Opened v.source v.layout.resolve session PixelCode.recognizer plan s)
    (hindex : index < v.frameCount) :
    s.sample index = .ok (SampledStream.recordOf index (Decimal.toFloat false index 0 / v.fps)
      (SampledStream.found v.layout.layout PixelCode.recognizer (v.paint index))) := by
  have hread : s.source.read index = .ok (v.paint index) := by
    rw [h.source_eq]
    exact if_pos hindex
  have hsize := v.size_paint index
  rw [s.sample_eq hread ?_, h.source_eq, h.recognizer_eq, RowLayout.resolve_eq_ok h.layout]
  · rfl
  · rw [hsize.1, hsize.2]
    exact h.fits

end SyntheticVideo

theorem SampledStream.run_parallel (s : SampledStream) (parallel : Bool) :
    run { s with parallel } = s.run := by
  have hfrom (left index : Nat) :
      runFrom { s with parallel } left index = s.runFrom left index := by
    induction left generalizing index with
    | zero => rfl
    | succ left ih => simp only [runFrom, sample_parallel, ih]
  exact hfrom _ _

theorem synthetic_capture_lossless {v : SyntheticVideo} {version : String}
    {participant : Option Nat} {fields : List String} {session : Session} {plan : SamplingPlan}
    {s : SampledStream} (hlayout : v.layout = .row version participant fields)
    (hopen : SampledStream.openOn v.source v.layout.resolve session PixelCode.recognizer plan =
      .ok s) :
    s.run = s.records.map .ok ∧ s.records.map (·.frame) = s.indices.toList ∧
    (∀ f ∈ s.records, ∀ n ∈ fields, v.Recorded f n) ∧
    (∀ n index m, v.marker n index = some m → 1 ≤ m) ∧
    ∀ parallelRegions, ∃ s', SampledStream.openOn v.source v.layout.resolve session
      PixelCode.recognizer { plan with parallelRegions } = .ok s' ∧ s'.run = s.run := by
  have h := SampledStream.openOn_eq_ok_iff.mp hopen
  have hbelow := (SamplingPlan.planned h.indices).below
  obtain ⟨taken, rest, hindices, hrecords, hend⟩ := s.run_splits
  have hall : rest = [] ∧ s.run = s.records.map .ok := by
    rcases hend with hall | ⟨i, after, e, rfl, he, -⟩
    · exact hall
    · have hi : i < v.frameCount := hbelow i (by simp [hindices])
      rw [SyntheticVideo.sample_source h hi] at he
      cases he
  rw [hall.1, List.append_nil] at hindices
  have hfits := h.fits
  rw [RowLayout.resolve_eq_ok h.layout] at hfits
  have hshares : List.Forall₂ (fun i f => f.frame = i ∧ ∀ n ∈ fields, v.Recorded f n) taken
      s.records := by
    have hinside : ∀ i ∈ taken, i < v.frameCount := fun i hi => hbelow i (hindices ▸ hi)
    refine ((List.forall₂_and_left _ _).mpr ⟨hinside, hrecords⟩).imp ?_
    rintro i f ⟨hi, hsample⟩
    cases hsample.symm.trans (SyntheticVideo.sample_source h hi)
    exact ⟨SampledStream.recordOf_frame, fun n hn =>
      SyntheticVideo.recorded_recordOf hlayout hn hfits⟩
  refine ⟨hall.2, ?_, ?_, fun n index m hm => SyntheticVideo.one_le_marker hm, ?_⟩
  · rw [hindices]
    exact SampledStream.frames_of_share (hshares.imp fun _ _ hf => hf.1)
  · intro f hf
    obtain ⟨i, -, -, hrecorded⟩ := exists_of_forall₂ hshares hf
    exact hrecorded
  · intro parallelRegions
    refine ⟨{ s with parallel := parallelRegions }, ?_, s.run_parallel parallelRegions⟩
    exact SampledStream.openOn_eq_ok_iff.mpr
      ⟨h.source_eq, h.recognizer_eq, h.indices, h.layout, h.fits, rfl⟩

theorem synthetic_capture_lossless_neighbours : ∃ (v : SyntheticVideo) (s : SampledStream),
    v.layout = .row Session.standard.gameVersion none ["kills", "gold"] ∧
    SampledStream.openOn v.source v.layout.resolve .standard PixelCode.recognizer
      ⟨1, none, 10, true⟩ = .ok s ∧
    s.records.map (·.frame) = [1, 4] ∧
    (∀ f ∈ s.records, ∀ n ∈ ["kills", "gold"], v.Recorded f n) ∧
    (v.shown "gold" 1 = some 65279 ∧ v.marker "gold" 1 = some 1 ∧ v.shown "gold" 4 = none) ∧
    v.shown "kills" 1 = none ∧ v.shown "kills" 4 = some 256 ∧ v.marker "kills" 4 = none := by
  let v : SyntheticVideo := ⟨.row Session.standard.gameVersion none ["kills", "gold"], 30, 7,
    .ofList [("gold", [none, some 65279]), ("kills", [some 1, none, none, none, some 256])],
    [⟨"gold", 1, 0⟩]⟩
  let s : SampledStream :=
    ⟨v.source, PixelCode.recognizer, v.layout.layout, ⟨1, 7, 3⟩, true⟩
  have hrate : SamplingPlan.isPositive 10 = true ∧ SamplingPlan.isPositive 30 = true := by
    decide +kernel
  have hstride : Decimal.toWord (30 / 10) = 3 := by decide +kernel
  have hnames : RowLayout.sortNames ["kills", "gold"] = ["gold", "kills"] := by
    simp [RowLayout.sortNames, List.mergeSort, List.MergeSort.Internal.splitInTwo]
  have hentries : v.layout.layout.entries = [("gold", ⟨0, 0, 8, 8⟩), ("kills", ⟨8, 0, 8, 8⟩)] := by
    simp only [v, RowLayout.row, hnames]
    decide
  have hopen : SampledStream.openOn v.source v.layout.resolve .standard PixelCode.recognizer
      ⟨1, none, 10, true⟩ = .ok s :=
    SampledStream.openOn_eq_ok_iff.mpr ⟨rfl, rfl, by
      simp [SamplingPlan.frameIndices, SamplingPlan.stride, SamplingPlan.validate, hrate, hstride,
        SyntheticVideo.source, v, s, bind, Except.bind], rfl, by
      simp only [s, hentries, SyntheticVideo.source, RowLayout.width, Table.size]
      decide, rfl⟩
  obtain ⟨-, hframes, hrecorded, -, -⟩ := synthetic_capture_lossless rfl hopen
  have hindices : s.indices.toList = [1, 4] := by decide
  exact ⟨v, s, rfl, hopen, hframes.trans hindices, hrecorded, by decide, by decide⟩

end GameTimeline
