import GameTimeline.Proofs.Reconcile.Evidence
import GameTimeline.Reconcile.Reconciler
import Mathlib.Data.List.Forall2

namespace GameTimeline

def RawFrame.showing (frame : Nat) (field : String) (n : Int64) : RawFrame :=
  (RawFrame.new frame 0).withReading field (some (.int n))

namespace Reconciler

structure Stepped (r : Reconciler) (f : RawFrame) (r' : Reconciler) (report : StepReport) :
    Prop where
  later : ∀ p, r.lastFrame = some p → p < f.frame
  lastFrame : r'.lastFrame = some f.frame
  seq : r'.seq = r.seq + 1
  frame : report.frame = f.frame
  tracks : r'.tracks = r.tracks.map fun n t => (t.step (r.observation f n)).1
  fields : report.fields = r.tracks.map fun n t => (t.step (r.observation f n)).2

theorem lt_of_check {r : Reconciler} {f : RawFrame} (h : r.check f = .ok ()) {p : Nat}
    (hp : r.lastFrame = some p) : p < f.frame := by
  rw [check, hp] at h
  by_contra hle
  simp [Nat.not_lt.mp hle] at h

theorem check_of_step {r r' : Reconciler} {f : RawFrame} {report : StepReport}
    (h : r.step f = .ok (r', report)) : r.check f = .ok () := by
  rw [step] at h
  cases hc : r.check f with
  | error e => simp [hc, bind, Except.bind] at h
  | ok _ => rfl

theorem stepped_of_step {r r' : Reconciler} {f : RawFrame} {report : StepReport}
    (h : r.step f = .ok (r', report)) : Stepped r f r' report := by
  have hcheck := check_of_step h
  simp only [step, hcheck, bind, Except.bind, pure, Except.pure, Except.ok.injEq,
    Prod.mk.injEq] at h
  obtain ⟨rfl, rfl⟩ := h
  exact ⟨fun p hp => lt_of_check hcheck hp, rfl, rfl, rfl,
    by simp only [stepTracks, Table.map_map], by simp only [stepTracks, Table.map_map]⟩

theorem Stepped.track {r r' : Reconciler} {f : RawFrame} {report : StepReport} {n : String}
    {t : Track} (h : Stepped r f r' report) (ht : r.tracks.get? n = some t) :
    r'.tracks.get? n = some (t.step (r.observation f n)).1 := by
  rw [h.tracks, Table.get?_map, ht]
  rfl

theorem Stepped.field {r r' : Reconciler} {f : RawFrame} {report : StepReport} {n : String}
    {t : Track} (h : Stepped r f r' report) (ht : r.tracks.get? n = some t) :
    report.fields.get? n = some (t.step (r.observation f n)).2 := by
  rw [h.fields, Table.get?_map, ht]
  rfl

inductive Run (s : ModelSet) : List (RawFrame × StepReport) → Reconciler → Prop
  | start : Run s [] (.new s)
  | step {past : List (RawFrame × StepReport)} {r r' : Reconciler} {f : RawFrame}
      {report : StepReport} :
      Run s past r → r.step f = .ok (r', report) → Run s ((f, report) :: past) r'
  | refused {past : List (RawFrame × StepReport)} {r : Reconciler} {f : RawFrame}
      {e : InputError} : Run s past r → r.step f = .error e → Run s past r

structure Share (n : String) (e : RawFrame × StepReport) (h : Observation × FieldStep) : Prop where
  frame : h.1.frame = e.1.frame
  reading : h.1.reading = e.1.reading n
  confidence : h.1.confidence = e.1.confidenceOf n
  step : e.2.fields.get? n = some h.2

variable {s : ModelSet} {past : List (RawFrame × StepReport)} {r : Reconciler} {n : String}
  {m : FieldModel}

theorem Run.seq (h : Run s past r) : r.seq = past.length := by
  induction h with
  | start => rfl
  | step _ hstep ih => rw [(stepped_of_step hstep).seq, ih, List.length_cons]
  | refused _ _ ih => exact ih

theorem Run.lastFrame (h : Run s past r) : r.lastFrame = past.head?.map (·.1.frame) := by
  induction h with
  | start => rfl
  | step _ hstep _ => exact (stepped_of_step hstep).lastFrame
  | refused _ _ ih => exact ih

theorem Run.frames (h : Run s past r) : past.Pairwise (·.1.frame > ·.1.frame) := by
  induction h with
  | start => exact .nil
  | step hrun hstep ih =>
      refine pairwise_cons_of_head ih fun e he => (stepped_of_step hstep).later _ ?_
      rw [hrun.lastFrame, he]
      rfl
  | refused _ _ ih => exact ih

theorem Run.entry_le_last (h : Run s past r) {e : RawFrame × StepReport} (he : e ∈ past) :
    ∃ last, r.lastFrame = some last ∧ e.1.frame ≤ last := by
  have hord := h.frames
  rw [h.lastFrame]
  cases past with
  | nil => cases he
  | cons e' older =>
      refine ⟨e'.1.frame, rfl, ?_⟩
      rcases List.mem_cons.mp he with rfl | he
      · exact Nat.le_refl _
      · exact Nat.le_of_lt ((List.pairwise_cons.mp hord).1 e he)

theorem Run.observation_seq (h : Run s past r) {hist : List (Observation × FieldStep)}
    (hshare : List.Forall₂ (Share n) past hist) (f : RawFrame) :
    (r.observation f n).seq = hist.length + 1 := by
  rw [← hshare.length_eq, ← h.seq]
  rfl

theorem Run.field (h : Run s past r) (hm : s.get? n = some m) :
    ∃ t hist, r.tracks.get? n = some t ∧ Track.Run m hist t ∧
      List.Forall₂ (Share n) past hist := by
  induction h with
  | start =>
      refine ⟨⟨m, none⟩, [], ?_, .start, .nil⟩
      have hget : s.models.get? n = some m := hm
      rw [new, Table.get?_map, hget]
      rfl
  | @step past r r' f report hrun hstep ih =>
      obtain ⟨t, hist, ht, hfield, hshare⟩ := ih
      have hst := stepped_of_step hstep
      have hframes : past.head?.map (·.1.frame) = hist.head?.map (·.1.frame) := by
        cases hshare with
        | nil => rfl
        | cons hs _ => simp [hs.frame]
      refine ⟨_, (r.observation f n, (t.step (r.observation f n)).2) :: hist, hst.track ht,
        .step hfield (hrun.observation_seq hshare f) ?_ ?_,
        .cons ⟨rfl, rfl, rfl, hst.field ht⟩ hshare⟩
      · rw [← hframes, ← hrun.lastFrame]
        rfl
      · intro e he
        refine hst.later _ ?_
        rw [hrun.lastFrame, hframes, he]
        rfl
  | refused _ _ ih => exact ih

theorem Run.fieldAt (h : Run s past r) (hm : s.get? n = some m) {t : Track}
    (ht : r.tracks.get? n = some t) :
    ∃ hist, Track.Run m hist t ∧ List.Forall₂ (Share n) past hist := by
  obtain ⟨t', hist, ht', hfield, hshare⟩ := h.field hm
  obtain rfl : t = t' := Option.some.inj (ht.symm.trans ht')
  exact ⟨hist, hfield, hshare⟩

def accepted? (r : Reconciler) (n : String) : Option (FieldValue × Nat) :=
  (r.belief? n).bind (·.accepted)

theorem accepted?_eq {t : Track} (ht : r.tracks.get? n = some t) :
    r.accepted? n = t.current.accepted := by
  rw [accepted?, belief?, ht, Option.bind_some]
  obtain ⟨_, b?⟩ := t
  cases b? <;> rfl

end Reconciler

end GameTimeline
