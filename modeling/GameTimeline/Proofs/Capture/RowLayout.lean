import GameTimeline.Proofs.Capture.Synthetic

namespace GameTimeline

theorem Layout.exists_of_validate_ne_ok {l : Layout} {width height : Nat}
    (h : l.validate width height ≠ .ok ()) :
    ∃ e ∈ l.entries, l.validate width height =
      .error (.regionOutOfBounds (some e.1) e.2 width height) := by
  simp only [validate] at h ⊢
  cases hfind : l.entries.find? fun e => !e.2.fits width height with
  | none => exact absurd (by rw [hfind]) h
  | some e => exact ⟨e, List.mem_of_find?_eq_some hfind, rfl⟩

theorem SamplingPlan.frameIndices_third {v : VideoProps} {first : Nat} {parallel : Bool}
    (hfps : v.fps = 30) (hfirst : first < v.frameCount) :
    frameIndices ⟨first, none, 10, parallel⟩ v = .ok ⟨first, v.frameCount, 3⟩ := by
  have hrate : isPositive 10 = true ∧ isPositive 30 = true := by decide +kernel
  have hstride : Decimal.toWord (30 / 10) = 3 := by decide +kernel
  simp [frameIndices, stride, validate, hfps, hrate, hstride, hfirst, bind, Except.bind]

namespace SampledStream

variable {source : FrameSource} {resolver : LayoutResolver} {session : Session}
  {recognizer : Recognizer} {plan : SamplingPlan} {s : SampledStream}

theorem openOn_of_resolved {indices : FrameIndices} {layout : Layout}
    (hindices : plan.frameIndices source.props = .ok indices)
    (hlayout : resolver session source.props.width source.props.height = .ok layout) :
    openOn source resolver session recognizer plan =
      (layout.validate source.props.width source.props.height).map fun _ =>
        ⟨source, recognizer, layout, indices, plan.parallelRegions⟩ := by
  simp only [openOn, hindices, hlayout, bind, Except.bind]
  cases layout.validate source.props.width source.props.height <;> rfl

structure Complete (s : SampledStream) : Prop where
  run_eq : s.run = s.records.map .ok
  frames : s.records.map (·.frame) = s.indices.toList
  keys : ∀ f ∈ s.records, f.readings.keys = s.layout.keys

theorem Opened.complete (h : Opened source resolver session recognizer plan s)
    (hsize : Sized source)
    (hread : ∀ i < source.props.frameCount, ∃ image, source.read i = .ok image) :
    s.Complete := by
  obtain ⟨taken, rest, hindices, hrecords, hend⟩ := s.run_splits
  have hframes : s.records.map (·.frame) = taken :=
    frames_of_share (hrecords.imp fun _ _ hsample => (h.of_sample hsize hsample).2.1)
  rcases hend with ⟨rfl, hrun⟩ | ⟨i, after, e, rfl, he, -⟩
  · refine ⟨hrun, by rw [hframes, hindices, List.append_nil], ?_⟩
    intro f hf
    obtain ⟨i, -, hsample⟩ := exists_of_forall₂ hrecords hf
    exact (h.of_sample hsize hsample).2.2
  · have hi : i < source.props.frameCount :=
      (SamplingPlan.planned h.indices).below i (by simp [hindices])
    obtain ⟨image, himage⟩ := hread i hi
    cases ((h.sample_eq_error_iff hsize).mp he).symm.trans himage

end SampledStream

namespace RowLayout

variable {version : String} {participant : Option Nat} {fields : List String} {w h : Nat}

theorem size_row : (row version participant fields).layout.size = fields.dedup.length := by
  have hnames : ((sortNames fields).zipIdx.map fun e => (e.1, cellAt e.2)).map (·.1) =
      sortNames fields := by
    rw [List.map_map]
    exact List.zipIdx_map_fst ..
  rw [row, Table.size_ofList, hnames]
  exact (List.mergeSort_perm fields _).dedup.length_eq

theorem length_sortNames : (sortNames fields).length = fields.length :=
  (List.mergeSort_perm fields _).length_eq

theorem fits_cellAt {i : Nat} : (cellAt i).fits w h = true ↔
    (i + 1) * cell < UInt32.size ∧ (i + 1) * cell ≤ w ∧ cell ≤ h := by
  have hcell : cell = 8 := rfl
  have hsize : UInt32.size = 4294967296 := rfl
  rw [Region.fits_iff]
  simp only [cellAt, hcell, hsize]
  omega

theorem exists_cell {e : String × Region}
    (he : e ∈ (row version participant fields).layout.entries) :
    ∃ i < fields.length, e.2 = cellAt i := by
  obtain ⟨i, hi, hcell⟩ := cell_of_mem_row he
  obtain ⟨hlt, -⟩ := List.getElem?_eq_some_iff.mp hi
  exact ⟨i, length_sortNames ▸ hlt, hcell⟩

theorem exists_last_cell (hfields : fields ≠ []) :
    ∃ e ∈ (row version participant fields).layout.entries, e.2 = cellAt (fields.length - 1) := by
  have hlength : (sortNames fields).length = fields.length := length_sortNames
  rcases (sortNames fields).eq_nil_or_concat with hnil | ⟨names, n, hnames⟩
  · rw [hnil] at hlength
    exact absurd (List.eq_nil_of_length_eq_zero hlength.symm) hfields
  · rw [hnames, List.concat_eq_append, List.length_append, List.length_singleton] at hlength
    refine ⟨(n, cellAt names.length), ?_, by rw [← hlength, Nat.add_sub_cancel]⟩
    have hlast := Table.get?_ofList_concat (names.zipIdx.map fun e => (e.1, cellAt e.2))
      (n, cellAt names.length)
    rw [← Table.get?_eq_some_iff, row, hnames, List.concat_eq_append, List.zipIdx_append,
      List.map_append]
    simpa using hlast

theorem validate_row_iff :
    (row version participant fields).layout.validate w h = .ok () ↔
      fields = [] ∨ fields.length * cell < UInt32.size ∧ fields.length * cell ≤ w ∧ cell ≤ h := by
  rw [Layout.validate_eq_ok_iff]
  constructor
  · intro hall
    by_cases hfields : fields = []
    · exact .inl hfields
    · obtain ⟨e, he, hcell⟩ := exists_last_cell hfields
      have hfits := hall e he
      rw [hcell, fits_cellAt, Nat.sub_add_cancel (List.length_pos_of_ne_nil hfields)] at hfits
      exact .inr hfits
  · intro hfits e he
    obtain ⟨i, hi, hcell⟩ := exists_cell he
    rw [hcell, fits_cellAt]
    rcases hfits with rfl | ⟨hword, hwidth, hheight⟩
    · cases hi
    · have hle : (i + 1) * cell ≤ fields.length * cell := Nat.mul_le_mul_right cell hi
      exact ⟨Nat.lt_of_le_of_lt hle hword, Nat.le_trans hle hwidth, hheight⟩

theorem nodup_iff_length_le : fields.Nodup ↔ fields.length ≤ max fields.dedup.length 1 := by
  rw [← List.dedup_eq_self]
  constructor
  · intro hself
    rw [hself]
    exact Nat.le_max_left ..
  · intro hle
    apply (List.dedup_sublist fields).eq_of_length_le
    cases fields with
    | nil => exact Nat.le_refl 0
    | cons n fields =>
        have hn : n ∈ (n :: fields).dedup := List.mem_dedup.mpr (List.mem_cons_self ..)
        rwa [Nat.max_eq_left (List.length_pos_of_mem hn)] at hle

theorem width_row :
    (row version participant fields).width = max fields.dedup.length 1 * cell := by
  rw [width, size_row]

theorem validate_width_iff :
    (row version participant fields).layout.validate (row version participant fields).width
      height = .ok () ↔ fields.Nodup ∧ fields.length * cell < UInt32.size := by
  have hcell : 0 < cell := by decide
  rw [validate_row_iff, width_row, Nat.mul_le_mul_right_iff hcell, ← nodup_iff_length_le]
  constructor
  · rintro (rfl | ⟨hword, hnodup, -⟩)
    · exact ⟨.nil, by decide⟩
    · exact ⟨hnodup, hword⟩
  · rintro ⟨hnodup, hword⟩
    exact .inr ⟨hword, hnodup, Nat.le_refl _⟩

end RowLayout

namespace SyntheticVideo

theorem sized_source (v : SyntheticVideo) : SampledStream.Sized v.source := by
  intro i image hread
  simp only [source, read] at hread
  split at hread
  · cases hread
    exact v.size_paint i
  · cases hread

theorem exists_read (v : SyntheticVideo) :
    ∀ i < v.source.props.frameCount, ∃ image, v.source.read i = .ok image :=
  fun _ hi => ⟨_, if_pos hi⟩

section

variable {v : SyntheticVideo} {session : Session} {recognizer : Recognizer} {plan : SamplingPlan}
  {indices : FrameIndices}
  (hresolve : v.layout.resolve session v.layout.width RowLayout.height = .ok v.layout.layout)
  (hindices : plan.frameIndices v.source.props = .ok indices)

include hresolve hindices

theorem exists_open
    (hvalid : v.layout.layout.validate v.layout.width RowLayout.height = .ok ()) :
    ∃ s, SampledStream.openOn v.source v.layout.resolve session recognizer plan = .ok s ∧
      s.layout = v.layout.layout ∧ s.indices = indices ∧ s.Complete := by
  let s : SampledStream :=
    ⟨v.source, recognizer, v.layout.layout, indices, plan.parallelRegions⟩
  have hopen : SampledStream.openOn v.source v.layout.resolve session recognizer plan = .ok s := by
    rw [SampledStream.openOn_of_resolved hindices hresolve]
    exact congrArg (Except.map _) hvalid
  have hcomplete : s.Complete :=
    (SampledStream.openOn_eq_ok_iff.mp hopen).complete v.sized_source v.exists_read
  exact ⟨s, hopen, rfl, rfl, hcomplete⟩

theorem exists_refusal
    (hvalid : v.layout.layout.validate v.layout.width RowLayout.height ≠ .ok ()) :
    ∃ e ∈ v.layout.layout.entries,
      SampledStream.openOn v.source v.layout.resolve session recognizer plan =
        .error (.regionOutOfBounds (some e.1) e.2 v.layout.width RowLayout.height) := by
  obtain ⟨e, he, herror⟩ := Layout.exists_of_validate_ne_ok hvalid
  refine ⟨e, he, ?_⟩
  rw [SampledStream.openOn_of_resolved hindices hresolve]
  exact congrArg (Except.map _) herror

end

end SyntheticVideo

theorem RowLayout.fits_frame_iff_nodup {l : RowLayout} {version : String}
    {participant : Option Nat} {fields : List String} (hl : l = .row version participant fields)
    (hplaces : ∀ i < fields.length, i * cell < UInt32.size) :
    (∀ n, n ∈ l.layout.keys ↔ n ∈ fields) ∧
    (∀ e ∈ l.layout.entries, e.2.x < UInt32.size ∧ e.2 = ⟨e.2.x, 0, cell, cell⟩) ∧
    (∀ e ∈ l.layout.entries, ∀ d ∈ l.layout.entries, e.1 ≠ d.1 →
      ∀ x y, ¬ (e.2.covers x y = true ∧ d.2.covers x y = true)) ∧
    (∀ w h, l.layout.validate w h = .ok () ↔ fields = [] ∨
      fields.length * cell < UInt32.size ∧ fields.length * cell ≤ w ∧ cell ≤ h) ∧
    l.width = max fields.dedup.length 1 * cell ∧
    (l.layout.validate l.width height = .ok () ↔
      fields.Nodup ∧ fields.length * cell < UInt32.size) ∧
    ∀ (v : SyntheticVideo) session recognizer plan indices, v.layout = l →
      session.gameVersion = version → (participant.isSome → session.participant = participant) →
      plan.frameIndices v.source.props = .ok indices →
      if fields.Nodup ∧ fields.length * cell < UInt32.size then
        ∃ s, SampledStream.openOn v.source l.resolve session recognizer plan = .ok s ∧
          s.layout = l.layout ∧ s.indices = indices ∧ s.Complete
      else ∃ e ∈ l.layout.entries,
        SampledStream.openOn v.source l.resolve session recognizer plan =
          .error (.regionOutOfBounds (some e.1) e.2 l.width height) := by
  subst hl
  refine ⟨?names, ?cells, ?apart, ?frames, width_row, validate_width_iff, ?video⟩
  case names => exact fun n => keys_row
  case cells =>
    intro e he
    obtain ⟨i, hi, hcell⟩ := exists_cell he
    rw [hcell]
    exact ⟨hplaces i hi, rfl⟩
  case apart =>
    rintro e he d hd hne x y ⟨hex, hdx⟩
    exact hne (disjoint_row he hd hex hdx)
  case frames => exact fun w h => validate_row_iff
  case video =>
    intro v session recognizer plan indices hlayout hversion hplayer hindices
    have hresolve : v.layout.resolve session v.layout.width height = .ok v.layout.layout := by
      rw [resolve_eq_ok_iff, hlayout]
      exact ⟨rfl, hversion, hplayer⟩
    have hvalid : v.layout.layout.validate v.layout.width height = .ok () ↔
        fields.Nodup ∧ fields.length * cell < UInt32.size := by
      rw [hlayout]
      exact validate_width_iff
    rw [← hlayout]
    split
    · rename_i hfit
      exact SyntheticVideo.exists_open hresolve hindices (hvalid.mpr hfit)
    · rename_i hmisfit
      exact SyntheticVideo.exists_refusal hresolve hindices (mt hvalid.mp hmisfit)

theorem RowLayout.fits_frame_iff_nodup_neighbours : ∃ (v : SyntheticVideo) (plan : SamplingPlan)
    (s : SampledStream),
    v.layout = .row Session.standard.gameVersion (some 3) ["kills", "gold"] ∧
    (∀ i < ["kills", "gold"].length, i * cell < UInt32.size) ∧
    (∀ e ∈ v.layout.layout.entries, e.2 = ⟨e.2.x, 0, cell, cell⟩) ∧
    v.layout.layout.validate v.layout.width height = .ok () ∧
    v.layout.layout.validate 15 height ≠ .ok () ∧
    plan.frameIndices v.source.props = .ok s.indices ∧
    SampledStream.openOn v.source v.layout.resolve ⟨Session.standard.gameVersion, some 3⟩
      PixelCode.recognizer plan = .ok s ∧
    s.run = s.records.map .ok ∧ s.records.map (·.frame) = [1, 4] ∧
    ∀ f ∈ s.records, "gold" ∈ f.readings.keys ∧ "kills" ∈ f.readings.keys := by
  let v : SyntheticVideo := ⟨.row Session.standard.gameVersion (some 3) ["kills", "gold"], 30, 7,
    .ofList [("gold", [none, some 500])], []⟩
  have hindices : SamplingPlan.frameIndices ⟨1, none, 10, true⟩ v.source.props = .ok ⟨1, 7, 3⟩ :=
    SamplingPlan.frameIndices_third rfl (by decide)
  have hfit : ["kills", "gold"].Nodup ∧ ["kills", "gold"].length * cell < UInt32.size := by decide
  have hplaces : ∀ i < ["kills", "gold"].length, i * cell < UInt32.size := by decide
  obtain ⟨hkeys, hcells, -, hframe, -, hvalid, hvideo⟩ :=
    fits_frame_iff_nodup (l := v.layout) rfl hplaces
  have hopen := hvideo v ⟨Session.standard.gameVersion, some 3⟩ PixelCode.recognizer _ _ rfl rfl
    (fun _ => rfl) hindices
  rw [if_pos hfit] at hopen
  obtain ⟨s, hopen, hlayout, hplanned, hcomplete⟩ := hopen
  refine ⟨v, _, s, rfl, hplaces, fun e he => (hcells e he).2, hvalid.mpr hfit, ?_,
    hplanned ▸ hindices, hopen, hcomplete.run_eq, ?_, ?_⟩
  · rw [Ne, hframe]
    decide
  · rw [hcomplete.frames, hplanned]
    decide
  · intro f hf
    rw [hcomplete.keys f hf, hlayout, hkeys, hkeys]
    decide

/-- A name given twice stands in its second cell, outside of a frame as wide as one cell. -/
theorem RowLayout.repeated_name_outside : ∃ v : SyntheticVideo,
    v.layout = .row Session.standard.gameVersion none ["gold", "gold"] ∧
    (∀ i < ["gold", "gold"].length, i * cell < UInt32.size) ∧ v.layout.layout.keys = ["gold"] ∧
    v.layout.layout.validate v.layout.width height =
      .error (.regionOutOfBounds (some "gold") ⟨8, 0, 8, 8⟩ 8 8) ∧
    SampledStream.openOn v.source v.layout.resolve .standard PixelCode.recognizer .standard =
      .error (.regionOutOfBounds (some "gold") ⟨8, 0, 8, 8⟩ 8 8) := by
  let v : SyntheticVideo := ⟨.row Session.standard.gameVersion none ["gold", "gold"], 30, 1,
    .ofList [("gold", [some 7])], []⟩
  have hindices : SamplingPlan.standard.frameIndices v.source.props = .ok ⟨0, 1, 3⟩ :=
    SamplingPlan.frameIndices_third rfl Nat.zero_lt_one
  have hnames : RowLayout.sortNames ["gold", "gold"] = ["gold", "gold"] := by
    simp [RowLayout.sortNames, List.mergeSort, List.MergeSort.Internal.splitInTwo]
  have hentries : v.layout.layout.entries = [("gold", ⟨8, 0, 8, 8⟩)] := by
    simp only [v, RowLayout.row, hnames]
    decide
  have hwidth : v.layout.width = 8 := by
    rw [width, Table.size, hentries]
    rfl
  have hvalid : v.layout.layout.validate v.layout.width height =
      .error (.regionOutOfBounds (some "gold") ⟨8, 0, 8, 8⟩ 8 8) := by
    rw [Layout.validate, hentries, hwidth]
    rfl
  refine ⟨v, rfl, by decide, ?_, hvalid, ?_⟩
  · rw [Table.keys, hentries]
    rfl
  · rw [SampledStream.openOn_of_resolved hindices (resolve_eq_ok_iff.mpr ⟨rfl, rfl, fun _ => rfl⟩)]
    exact congrArg (Except.map _) hvalid

end GameTimeline
