import GameTimeline.Proofs.Capture.Plan
import GameTimeline.Proofs.Capture.Recognition
import GameTimeline.Proofs.Timeline.Admission

namespace GameTimeline

namespace SampledStream

variable {source : FrameSource} {resolver : LayoutResolver} {session : Session}
  {recognizer : Recognizer} {plan : SamplingPlan} {s : SampledStream}

structure Opened (source : FrameSource) (resolver : LayoutResolver) (session : Session)
    (recognizer : Recognizer) (plan : SamplingPlan) (s : SampledStream) : Prop where
  source_eq : s.source = source
  recognizer_eq : s.recognizer = recognizer
  indices : plan.frameIndices source.props = .ok s.indices
  layout : resolver session source.props.width source.props.height = .ok s.layout
  fits : ∀ e ∈ s.layout.entries, e.2.fits source.props.width source.props.height = true
  parallel : s.parallel = plan.parallelRegions

theorem openOn_eq_ok_iff :
    openOn source resolver session recognizer plan = .ok s ↔
      Opened source resolver session recognizer plan s := by
  constructor
  · intro h
    simp only [openOn, bind, Except.bind, pure, Except.pure] at h
    split at h
    · cases h
    · rename_i indices hindices
      split at h
      · cases h
      · rename_i layout hlayout
        split at h
        · cases h
        · rename_i hvalid
          cases h
          exact ⟨rfl, rfl, hindices, hlayout, Layout.validate_eq_ok_iff.mp hvalid, rfl⟩
  · rintro ⟨rfl, rfl, hindices, hlayout, hfits, hparallel⟩
    have hvalid := Layout.validate_eq_ok_iff.mpr hfits
    simp [openOn, hindices, hlayout, hvalid, ← hparallel, bind, Except.bind, pure, Except.pure]

def records (s : SampledStream) : List RawFrame := s.run.filterMap Except.toOption

theorem runFrom_splits (s : SampledStream) (left index : Nat) : ∃ taken rest fs,
    List.range' index left s.indices.stride = taken ++ rest ∧
    List.Forall₂ (fun i f => s.sample i = .ok f) taken fs ∧
    (rest = [] ∧ s.runFrom left index = fs.map .ok ∨
      ∃ i after e, rest = i :: after ∧ s.sample i = .error e ∧
        s.runFrom left index = fs.map .ok ++ [.error e]) := by
  induction left generalizing index with
  | zero => exact ⟨[], [], [], rfl, .nil, .inl ⟨rfl, rfl⟩⟩
  | succ left ih =>
      rw [List.range'_succ, runFrom]
      cases hsample : s.sample index with
      | error e => exact ⟨[], _, [], rfl, .nil, .inr ⟨index, _, e, rfl, hsample, rfl⟩⟩
      | ok f =>
          obtain ⟨taken, rest, fs, hrange, hfs, hend⟩ := ih (index + s.indices.stride)
          refine ⟨index :: taken, rest, f :: fs, by rw [hrange, List.cons_append],
            .cons hsample hfs, ?_⟩
          rcases hend with ⟨rfl, hrun⟩ | ⟨i, after, e, rfl, he, hrun⟩
          · exact .inl ⟨rfl, by simp [hrun]⟩
          · exact .inr ⟨i, after, e, rfl, he, by simp [hrun]⟩

theorem filterMap_toOption (fs : List RawFrame) :
    (fs.map (Except.ok (ε := CaptureError))).filterMap Except.toOption = fs := by
  induction fs with
  | nil => rfl
  | cons f fs ih => simp [Except.toOption, ih]

theorem frames_of_share {is : List Nat} {fs : List RawFrame}
    (h : List.Forall₂ (fun i f => f.frame = i) is fs) : fs.map (·.frame) = is := by
  induction h with
  | nil => rfl
  | cons hf _ ih => rw [List.map_cons, hf, ih]

theorem run_splits (s : SampledStream) : ∃ taken rest,
    s.indices.toList = taken ++ rest ∧
    List.Forall₂ (fun i f => s.sample i = .ok f) taken s.records ∧
    (rest = [] ∧ s.run = s.records.map .ok ∨
      ∃ i after e, rest = i :: after ∧ s.sample i = .error e ∧
        s.run = s.records.map .ok ++ [.error e]) := by
  obtain ⟨taken, rest, fs, hrange, hfs, hend⟩ := s.runFrom_splits s.indices.count s.indices.first
  have hrecords : s.records = fs := by
    rw [records, run]
    rcases hend with ⟨-, hrun⟩ | ⟨i, after, e, -, -, hrun⟩
    · rw [hrun, filterMap_toOption]
    · rw [hrun, List.filterMap_append, filterMap_toOption]
      exact List.append_nil _
  rw [hrecords, FrameIndices.toList_eq_range']
  exact ⟨taken, rest, hrange, hfs, hend⟩

def Sized (source : FrameSource) : Prop :=
  ∀ i image, source.read i = .ok image →
    image.width = source.props.width ∧ image.height = source.props.height

namespace Opened

variable (h : Opened source resolver session recognizer plan s)

include h

theorem fits_image (hsize : Sized source) {i : Nat} {image : Image}
    (hread : source.read i = .ok image) :
    ∀ e ∈ s.layout.entries, e.2.fits image.width image.height = true := by
  obtain ⟨hwidth, hheight⟩ := hsize i image hread
  rw [hwidth, hheight]
  exact h.fits

theorem sample_eq_error_iff (hsize : Sized source) {i : Nat} {e : CaptureError} :
    s.sample i = .error e ↔ source.read i = .error e := by
  cases hread : source.read i with
  | ok image =>
      rw [s.sample_eq (h.source_eq ▸ hread) (h.fits_image hsize hread)]
      simp
  | error e' => simp [sample, h.source_eq, hread, bind, Except.bind]

theorem of_sample (hsize : Sized source) {i : Nat} {f : RawFrame} (hsample : s.sample i = .ok f) :
    (∃ image, source.read i = .ok image) ∧ f.frame = i ∧ f.readings.keys = s.layout.keys := by
  cases hread : source.read i with
  | error e =>
      have herror := (h.sample_eq_error_iff hsize).mpr hread
      cases hsample.symm.trans herror
  | ok image =>
      have hok := s.sample_eq (h.source_eq ▸ hread) (h.fits_image hsize hread)
      cases hsample.symm.trans hok
      refine ⟨⟨image, rfl⟩, recordOf_frame, ?_⟩
      rw [recordOf_readings, found, Table.map_map, Table.keys_map]

end Opened

end SampledStream

namespace Sampling

variable {a : Sampling}

def rest (a : Sampling) : List (Except CaptureError RawFrame) :=
  if a.failed then [] else a.stream.runFrom a.left a.index

end Sampling

structure Planned (plan : SamplingPlan) (v : VideoProps) (i : FrameIndices) : Prop where
  stride : plan.stride v.fps = .ok i.stride
  stride_pos : 1 ≤ i.stride
  mem_iff : ∀ n, n ∈ i.toList ↔ plan.firstFrame ≤ n ∧
    n < min (plan.lastFrame.getD v.frameCount) v.frameCount ∧ i.stride ∣ n - plan.firstFrame
  ordered : i.toList.Pairwise (· < ·)
  nonempty : i.toList ≠ []
  below : ∀ n ∈ i.toList, n < v.frameCount

theorem SamplingPlan.planned {plan : SamplingPlan} {v : VideoProps} {i : FrameIndices}
    (h : plan.frameIndices v = .ok i) : Planned plan v i := by
  obtain ⟨hstride, hfirst, hlast, hwindow⟩ := frameIndices_eq_ok h
  have hpos := stride_pos hstride
  have hmem (n : Nat) : n ∈ i.toList ↔ plan.firstFrame ≤ n ∧
      n < min (plan.lastFrame.getD v.frameCount) v.frameCount ∧ i.stride ∣ n - plan.firstFrame := by
    rw [FrameIndices.mem_toList_iff hpos, hfirst, hlast]
  refine ⟨hstride, hpos, hmem, FrameIndices.toList_ordered hpos,
    FrameIndices.toList_ne_nil hpos hwindow, ?_⟩
  intro n hn
  exact Nat.lt_of_lt_of_le ((hmem n).mp hn).2.1 (Nat.min_le_right _ _)

end GameTimeline
