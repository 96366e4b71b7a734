import GameTimeline.Proofs.Timeline.Assembly

namespace GameTimeline

def FieldModel.Alike (m : FieldModel) (r r' : Reading) : Prop :=
  r' = r ∨ ∃ v v', r = some v ∧ r' = some v' ∧ m.normalize v = none ∧ m.normalize v' = none

def FieldStep.blurred (st : FieldStep) : FieldStep :=
  { st with discarded := st.discarded.map fun d => { d with value := .flag false } }

def StepReport.blurred (r : StepReport) : StepReport :=
  { r with fields := r.fields.map fun _ st => st.blurred }

namespace Track

variable {m : FieldModel} {o : Observation} {t : Track} {r : Reading} {c : Option Float32}

theorem meet_alike (h : m.Alike o.reading r) (hclear : m.isClear c = m.isClear o.confidence)
    (b : Option Belief) :
    (meet m { o with reading := r, confidence := c } b).1 = (meet m o b).1 ∧
      (meet m { o with reading := r, confidence := c } b).2.blurred =
        (meet m o b).2.blurred := by
  have hfaint : isFaint m { o with reading := r, confidence := c } = isFaint m o := by
    rw [isFaint_eq, isFaint_eq, hclear]
  rcases h with rfl | ⟨v, v', hv, rfl, hnone, hnone'⟩
  · simp only [meet, hfaint]
    exact ⟨rfl, rfl⟩
  · simp only [meet, hv, hfaint]
    split
    · exact ⟨rfl, rfl⟩
    · simp only [weigh, hnone, hnone']
      exact ⟨rfl, rfl⟩

theorem step_alike (h : t.model.Alike o.reading r)
    (hclear : t.model.isClear c = t.model.isClear o.confidence) :
    (t.step { o with reading := r, confidence := c }).1 = (t.step o).1 ∧
      (t.step { o with reading := r, confidence := c }).2.blurred = (t.step o).2.blurred := by
  obtain ⟨hbelief, hstep⟩ := meet_alike h hclear (t.belief.map (·.expire t.model.window o.seq))
  simp only [FieldStep.blurred, FieldStep.mk.injEq] at hstep
  obtain ⟨hvalue, houtcome, hterminal, hrevision, hdiscarded⟩ := hstep
  simp only [step, hbelief, FieldStep.blurred, hvalue, houtcome, hterminal, hrevision,
    List.map_append, hdiscarded, and_self]

end Track

structure RawFrame.Alike (s : ModelSet) (f f' : RawFrame) : Prop where
  frame : f'.frame = f.frame
  timestamp : f'.timestamp = f.timestamp
  shown : (f'.readings.map fun _ r => r.isSome) = f.readings.map fun _ r => r.isSome
  reading : ∀ n m, s.get? n = some m → m.Alike (f.reading n) (f'.reading n)
  confidence : ∀ n m, s.get? n = some m →
    m.isClear (f'.confidenceOf n) = m.isClear (f.confidenceOf n)

namespace Reconciler

variable {s : ModelSet} {r : Reconciler} {f f' : RawFrame}

theorem check_alike (h : f.Alike s f') : r.check f' = r.check f := by
  have hkeys : f'.readings.keys = f.readings.keys := by
    have hkeys := congrArg Table.keys h.shown
    rwa [Table.keys_map, Table.keys_map] at hkeys
  simp only [check, unknownField?, hkeys, h.frame]

theorem skip_alike (h : f.Alike s f') : r.skip f' = r.skip f := by
  rw [skip, skip, check_alike h, advance, advance, h.frame]

theorem observation_alike (h : f.Alike s f') (n : String) :
    r.observation f' n = { r.observation f n with
      reading := f'.reading n
      confidence := f'.confidenceOf n } := by
  simp only [observation, h.frame]

def passed (r : Reconciler) (f : RawFrame) : Reconciler × StepReport :=
  ({ r.advance f with tracks := (r.stepTracks f).map fun _ x => x.1 },
    ⟨f.frame, f.timestamp, (r.stepTracks f).map fun _ x => x.2⟩)

theorem step_eq (r : Reconciler) (f : RawFrame) :
    r.step f = (r.check f).map fun _ => r.passed f := by
  rw [step]
  cases r.check f <;> rfl

theorem track_alike (hsound : Sound s r) (h : f.Alike s f') {n : String} {t : Track}
    (ht : r.tracks.get? n = some t) :
    (t.step (r.observation f' n)).1 = (t.step (r.observation f n)).1 ∧
      (t.step (r.observation f' n)).2.blurred = (t.step (r.observation f n)).2.blurred := by
  obtain ⟨m, hm⟩ := hsound.model ht
  obtain ⟨rfl, -⟩ := hsound.track n m t hm ht
  rw [observation_alike h]
  exact Track.step_alike (h.reading n t.model hm) (h.confidence n t.model hm)

theorem stepTracks_alike (hsound : Sound s r) (h : f.Alike s f') :
    ((r.stepTracks f').map fun _ x => x.1) = ((r.stepTracks f).map fun _ x => x.1) ∧
      ((r.stepTracks f').map fun _ x => x.2.blurred) =
        (r.stepTracks f).map fun _ x => x.2.blurred := by
  simp only [stepTracks, Table.map_map]
  exact ⟨Table.map_congr fun n t ht => (track_alike hsound h ht).1,
    Table.map_congr fun n t ht => (track_alike hsound h ht).2⟩

theorem step_alike (hsound : Sound s r) (h : f.Alike s f') :
    (r.step f').map (fun x => (x.1, x.2.blurred)) = (r.step f).map fun x => (x.1, x.2.blurred) := by
  obtain ⟨htracks, hsteps⟩ := stepTracks_alike hsound h
  have hpassed : (r.passed f').1 = (r.passed f).1 ∧
      (r.passed f').2.blurred = (r.passed f).2.blurred := by
    simp only [passed, StepReport.blurred, Table.map_map, htracks, hsteps, advance, h.frame,
      h.timestamp, and_self]
  rw [step_eq, step_eq, check_alike h]
  cases r.check f with
  | error e => simp only [Except.map]
  | ok _ => simp only [Except.map, hpassed.1, hpassed.2]

end Reconciler

namespace StepReport

variable (r : StepReport)

theorem record_blurred : r.blurred.record = r.record := by
  simp [record, blurred, Table.map_map, FieldStep.blurred, FieldStep.provenance]

theorem terminal_blurred : r.blurred.terminal = r.terminal := by
  simp [terminal, blurred, Table.map, List.filter_map, Function.comp_def, FieldStep.blurred]

theorem revisions_blurred : r.blurred.revisions = r.revisions := by
  simp [revisions, blurred, Table.map, List.filterMap_map, FieldStep.blurred]

end StepReport

namespace QualityReport

variable (q : QualityReport) (r : StepReport)

theorem addDiscards_blurred : q.addDiscards r.blurred.discarded = q.addDiscards r.discarded := by
  have hdiscarded : r.blurred.discarded =
      r.discarded.map fun d => (d.1, { d.2 with value := .flag false }) := by
    simp [StepReport.discarded, StepReport.blurred, Table.map, List.flatMap_map, List.map_flatMap,
      Function.comp_def, FieldStep.blurred]
  rw [hdiscarded, addDiscards, List.foldl_map]
  rfl

theorem addSteps_blurred : q.addSteps r.blurred = q.addSteps r := by
  have hentries : r.blurred.fields.entries = r.fields.entries.map fun e => (e.1, e.2.blurred) := rfl
  rw [addSteps, hentries, List.foldl_map]
  rfl

theorem addIgnored_alike {s : ModelSet} {f f' : RawFrame} (h : f.Alike s f') :
    q.addIgnored f' = q.addIgnored f := by
  have hshown (f : RawFrame) : (f.readings.entries.filter (·.2.isSome)).map (·.1) =
      ((f.readings.map fun _ r => r.isSome).entries.filter (·.2)).map (·.1) := by
    simp [Table.map, List.filter_map, Function.comp_def]
  have hcount (f : RawFrame) : q.addIgnored f =
      ((f.readings.entries.filter (·.2.isSome)).map (·.1)).foldl
        (fun q n => q.modify n (·.addIgnored)) q := by
    rw [addIgnored, List.foldl_map]
  rw [hcount, hcount, hshown, hshown, h.shown]

end QualityReport

namespace TimelineBuilder

variable {s : ModelSet} {past : List (RawFrame × StepReport)} {rest frames frames' : List RawFrame}
  {b : TimelineBuilder} {f f' : RawFrame} {r r' : StepReport}

theorem takeReport_blurred (b : TimelineBuilder) (r : StepReport) :
    b.takeReport r.blurred = b.takeReport r := by
  simp only [takeReport, StepReport.revisions_blurred, addDiscards,
    QualityReport.addDiscards_blurred, QualityReport.addSteps_blurred, StepReport.record_blurred]

theorem settle_blurred (b : TimelineBuilder) (r : StepReport) :
    b.settle r.blurred = b.settle r := by
  have hframe : r.blurred.frame = r.frame := rfl
  simp only [settle, StepReport.terminal_blurred, freeze, StepReport.record_blurred, hframe]

theorem pushActive_eq (b : TimelineBuilder) (f : RawFrame) : b.pushActive f =
    ((b.reconciler.step f).map fun x => (x.1, x.2.blurred)).map fun x =>
      ({ b with reconciler := x.1 }.takeReport x.2).settle x.2 := by
  rw [pushActive]
  cases b.reconciler.step f with
  | error e => rfl
  | ok x =>
      simp only [Except.map, takeReport_blurred, settle_blurred]
      rfl

theorem Run.push_alike (h : Run s past rest b) (hf : f.Alike s f') : b.push f' = b.push f := by
  rw [TimelineBuilder.push, TimelineBuilder.push]
  split
  · rfl
  · rename_i hsound
    have hphase := h.phase
    rw [healed_of_sound (Bool.eq_false_iff.mpr hsound)] at hphase
    have hnext : b.pushNext f' = b.pushNext f := by
      rw [pushNext, pushNext]
      rcases hphase with ⟨-, hplaying⟩ | hover
      · rw [hplaying.session]
        simp only [pushActive_eq, Reconciler.step_alike hplaying.run.sound hf]
      · obtain ⟨frame, field, hsession⟩ := hover.ended.session
        rw [hsession]
        simp only [pushFrozen, Reconciler.skip_alike hf, QualityReport.addIgnored_alike _ hf, replay,
          hf.frame, hf.timestamp]
    rw [hnext]

theorem Run.pushAll_alike (h : Run s past rest b)
    (hframes : List.Forall₂ (RawFrame.Alike s) frames frames') :
    b.pushAll frames' = b.pushAll frames := by
  induction hframes generalizing past rest b with
  | nil => rfl
  | @cons f f' frames frames' hf _ ih =>
      obtain ⟨past', rest', hnext⟩ := h.push f
      rw [pushAll, pushAll, h.push_alike hf]
      rcases hpush : b.push f with ⟨b', e | states⟩
      · rfl
      · rw [hpush] at hnext
        exact ih hnext

end TimelineBuilder

theorem assemble_alike {s : ModelSet} {frames frames' : List RawFrame}
    (h : List.Forall₂ (RawFrame.Alike s) frames frames') :
    assemble s frames' = assemble s frames := by
  rw [assemble, assemble, TimelineBuilder.Run.start.pushAll_alike h]

end GameTimeline
