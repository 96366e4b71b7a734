import GameTimeline.Proofs.Reconcile.Renumbering
import GameTimeline.Timeline.Builder

namespace GameTimeline

section Shift

variable (k : Nat)

def CorrectedState.shift (s : CorrectedState) : CorrectedState := { s with frame := s.frame + k }

def Timeline.shift (t : Timeline) : Timeline := ⟨t.states.map (·.shift k)⟩

def SessionState.shift : SessionState → SessionState
  | .active => .active
  | .frozen frame field values => .frozen (frame + k) field values

def QualityReport.shift (q : QualityReport) : QualityReport :=
  { q with frozenAt := q.frozenAt.map (· + k) }

def TimelineBuilder.shift (b : TimelineBuilder) : TimelineBuilder :=
  ⟨b.reconciler.shift k, b.openStates.map (·.shift k), b.closed.shift k, b.session.shift k,
    b.quality.shift k, b.poisoned⟩

def BuildError.shift : BuildError → BuildError
  | .input e => .input (e.shift k)
  | .poisoned => .poisoned

end Shift

namespace CorrectedState

variable (s : CorrectedState) (k : Nat)

theorem covers_shift (r : Revision) (frame : Nat) :
    (r.shift k).covers (frame + k) = r.covers frame := by
  simp [Revision.covers, Revision.shift]

theorem revise_shift (field : String) (r : Revision) :
    (s.shift k).revise field (r.shift k) = (s.revise field r).shift k := by
  simp only [revise, shift, covers_shift]
  split <;> rfl

end CorrectedState

namespace Timeline

variable (t : Timeline) (k : Nat)

theorem size_shift : (t.shift k).size = t.size := by
  simp [size, shift]

theorem advances_shift (frame : Nat) : (t.shift k).advances (frame + k) = t.advances frame := by
  have hlast : (t.shift k).lastFrame? = t.lastFrame?.map (· + k) := by
    simp [lastFrame?, shift, CorrectedState.shift, Function.comp_def]
  rw [advances, advances, hlast]
  cases t.lastFrame? <;> simp

theorem append_shift (s : CorrectedState) :
    (t.shift k).append (s.shift k) = (t.append s).shift k := by
  have hframe : (s.shift k).frame = s.frame + k := rfl
  simp only [append, hframe, advances_shift]
  split <;> simp [shift]

theorem appendAll_shift (ss : List CorrectedState) :
    (t.shift k).appendAll (ss.map (·.shift k)) = (t.appendAll ss).shift k := by
  rw [appendAll, List.foldl_map]
  exact List.foldl_hom (shift k) fun t s => append_shift t k s

end Timeline

namespace StepReport

variable (r : StepReport) (k : Nat)

theorem record_shift : (r.shift k).record = r.record.shift k := by
  simp [record, shift, CorrectedState.shift, Table.map_map, FieldStep.shift, FieldStep.provenance]

theorem terminal_shift : (r.shift k).terminal = r.terminal := by
  simp [terminal, shift, Table.map, List.filter_map, Function.comp_def, FieldStep.shift]

theorem revisions_shift :
    (r.shift k).revisions = r.revisions.map fun e => (e.1, e.2.shift k) := by
  simp [revisions, shift, Table.map, List.filterMap_map, List.map_filterMap, Function.comp_def,
    FieldStep.shift]

theorem discarded_shift :
    (r.shift k).discarded = r.discarded.map fun e => (e.1, e.2.shift k) := by
  simp [discarded, shift, Table.map, List.flatMap_map, List.map_flatMap, Function.comp_def,
    FieldStep.shift]

end StepReport

namespace QualityReport

variable (q : QualityReport) (k : Nat)

theorem addDiscards_shift (ds : List (String × Discard)) :
    (q.shift k).addDiscards (ds.map fun e => (e.1, e.2.shift k)) = (q.addDiscards ds).shift k := by
  rw [addDiscards, List.foldl_map]
  exact List.foldl_hom (shift k) fun _ _ => rfl

theorem addSteps_shift (r : StepReport) :
    (q.shift k).addSteps (r.shift k) = (q.addSteps r).shift k := by
  have hentries : (r.shift k).fields.entries = r.fields.entries.map fun e => (e.1, e.2.shift k) :=
    rfl
  rw [addSteps, hentries, List.foldl_map]
  exact List.foldl_hom (shift k) fun _ _ => rfl

theorem addIgnored_shift (f : RawFrame) :
    (q.shift k).addIgnored (f.shift k) = (q.addIgnored f).shift k :=
  List.foldl_hom (shift k) fun _ _ => rfl

end QualityReport

namespace TimelineBuilder

variable (b : TimelineBuilder) (f : RawFrame) (k : Nat)

abbrev shiftClosed (x : TimelineBuilder × List CorrectedState) :
    TimelineBuilder × List CorrectedState :=
  (x.1.shift k, x.2.map (·.shift k))

@[simp] theorem shift_new (s : ModelSet) : (new s).shift k = new s := by
  simp [shift, new, Timeline.shift, Timeline.empty, SessionState.shift, QualityReport.shift,
    QualityReport.new]

theorem close_shift (states rest : List CorrectedState) :
    (b.shift k).close (states.map (·.shift k)) (rest.map (·.shift k)) =
      shiftClosed k (b.close states rest) := by
  simp [close, shift, Timeline.appendAll_shift]

theorem closeAll_shift : (b.shift k).closeAll = shiftClosed k b.closeAll :=
  b.close_shift k b.openStates []

theorem closeFinal_shift : (b.shift k).closeFinal = shiftClosed k b.closeFinal := by
  have hopen : (b.shift k).openStates = b.openStates.map (·.shift k) := rfl
  have hhorizon : (b.shift k).reconciler.horizon = b.reconciler.horizon.map (· + k) :=
    b.reconciler.horizon_shift k
  rw [closeFinal, closeFinal, hhorizon]
  cases b.reconciler.horizon with
  | none => exact b.closeAll_shift k
  | some h =>
      have hbefore (s : CorrectedState) :
          decide ((s.shift k).frame < h + k) = decide (s.frame < h) := by
        simp [CorrectedState.shift]
      simp only [Option.map_some, hopen, List.takeWhile_map, List.dropWhile_map, Function.comp_def,
        hbefore, close_shift]

theorem applyRevision_shift (e : String × Revision) :
    (b.shift k).applyRevision (e.1, e.2.shift k) = (b.applyRevision e).shift k := by
  have hcount : (b.shift k).openStates.countP (fun s => (e.2.shift k).covers s.frame) =
      b.openStates.countP fun s => e.2.covers s.frame := by
    simp [shift, List.countP_map, Function.comp_def, CorrectedState.shift,
      CorrectedState.covers_shift]
  simp only [applyRevision, hcount]
  simp [shift, CorrectedState.revise_shift, Function.comp_def]
  rfl

theorem addDiscards_shift (ds : List (String × Discard)) :
    (b.shift k).addDiscards (ds.map fun e => (e.1, e.2.shift k)) = (b.addDiscards ds).shift k := by
  simp [addDiscards, shift, QualityReport.addDiscards_shift]

theorem expireAll_shift : (b.shift k).expireAll = b.expireAll.shift k := by
  have hreconciler : (b.shift k).reconciler = b.reconciler.shift k := rfl
  rw [expireAll, hreconciler, Reconciler.expireAll_shift]
  exact addDiscards_shift { b with reconciler := b.reconciler.expireAll.1 } k _

theorem openRecord_shift (s : CorrectedState) :
    (b.shift k).openRecord (s.shift k) = (b.openRecord s).shift k := by
  simp [openRecord, shift]

theorem applyRevisions_shift (r : StepReport) :
    (r.shift k).revisions.foldl applyRevision (b.shift k) =
      (r.revisions.foldl applyRevision b).shift k := by
  rw [StepReport.revisions_shift, List.foldl_map]
  exact List.foldl_hom (shift k) fun b e => applyRevision_shift b k e

theorem takeReport_shift (r : StepReport) :
    (b.shift k).takeReport (r.shift k) = (b.takeReport r).shift k := by
  have hstart : { b.shift k with quality := (b.shift k).quality.addFrame } =
      shift k { b with quality := b.quality.addFrame } := rfl
  have hcounted (b : TimelineBuilder) :
      { b.shift k with quality := (b.shift k).quality.addSteps (r.shift k) } =
        shift k { b with quality := b.quality.addSteps r } := by
    simp [shift, QualityReport.addSteps_shift]
  simp only [takeReport, hstart, applyRevisions_shift, StepReport.discarded_shift,
    addDiscards_shift, hcounted, StepReport.record_shift, openRecord_shift]

theorem freeze_shift (r : StepReport) (field : String) :
    (b.shift k).freeze (r.shift k) field = (b.freeze r field).shift k := by
  simp [freeze, StepReport.record_shift]
  rfl

theorem settle_shift (r : StepReport) :
    (b.shift k).settle (r.shift k) = shiftClosed k (b.settle r) := by
  rw [settle, settle, StepReport.terminal_shift]
  cases r.terminal with
  | nil => exact b.closeFinal_shift k
  | cons field fields => simp only [freeze_shift, expireAll_shift, closeAll_shift]

theorem pushActive_shift : (b.shift k).pushActive (f.shift k) =
    ((b.pushActive f).map (shiftClosed k)).mapError (·.shift k) := by
  have hreconciler : (b.shift k).reconciler = b.reconciler.shift k := rfl
  rw [pushActive, pushActive, hreconciler, Reconciler.step_shift]
  cases b.reconciler.step f with
  | error e => rfl
  | ok x =>
      have htaken := takeReport_shift { b with reconciler := x.1 } k x.2
      have hsettled := settle_shift ({ b with reconciler := x.1 }.takeReport x.2) k x.2
      rw [← htaken] at hsettled
      exact congrArg Except.ok hsettled

theorem pushFrozen_shift (values : Table Reading) : (b.shift k).pushFrozen (f.shift k) values =
    ((b.pushFrozen f values).map (shiftClosed k)).mapError (·.shift k) := by
  have hreconciler : (b.shift k).reconciler = b.reconciler.shift k := rfl
  rw [pushFrozen, pushFrozen, hreconciler, Reconciler.skip_shift]
  cases b.reconciler.skip f with
  | error e => rfl
  | ok r =>
      have hquality : ((b.shift k).quality.addFrame).addIgnored (f.shift k) =
          (b.quality.addFrame.addIgnored f).shift k :=
        b.quality.addFrame.addIgnored_shift k f
      have hclosed := closeAll_shift ({ b with
        reconciler := r, quality := b.quality.addFrame.addIgnored f }.openRecord
          (replay f values)) k
      rw [← openRecord_shift, shift, ← hquality] at hclosed
      exact congrArg Except.ok hclosed

theorem pushNext_shift : (b.shift k).pushNext (f.shift k) =
    ((b.pushNext f).map (shiftClosed k)).mapError (·.shift k) := by
  have hsession : (b.shift k).session = b.session.shift k := rfl
  rw [pushNext, pushNext, hsession]
  cases b.session with
  | active => exact b.pushActive_shift f k
  | frozen frame field values => exact b.pushFrozen_shift f k values

theorem push_shift : (b.shift k).push (f.shift k) = ((b.push f).1.shift k,
    ((b.push f).2.map (List.map (·.shift k))).mapError (·.shift k)) := by
  have hpoisoned : (b.shift k).poisoned = b.poisoned := rfl
  rw [push, push, hpoisoned, pushNext_shift]
  split
  · rfl
  · cases b.pushNext f <;> rfl

theorem pushAll_shift (frames : List RawFrame) : (b.shift k).pushAll (frames.map (·.shift k)) =
    ((b.pushAll frames).map (·.shift k)).mapError (·.shift k) := by
  induction frames generalizing b with
  | nil => rfl
  | cons f rest ih =>
      rw [List.map_cons, pushAll, pushAll, push_shift]
      obtain ⟨b', result⟩ := b.push f
      cases result with
      | error e => rfl
      | ok states => exact ih b'

theorem finish_shift : (b.shift k).finish =
    (b.finish.map fun x => (x.1.shift k, x.2.shift k)).mapError (·.shift k) := by
  have hpoisoned : (b.shift k).poisoned = b.poisoned := rfl
  rw [finish, finish, hpoisoned, expireAll_shift, closeAll_shift]
  split
  · rfl
  · refine congrArg Except.ok (Prod.ext rfl ?_)
    simp [shift, QualityReport.shift, Timeline.size_shift]

end TimelineBuilder

theorem assemble_renumbered (s : ModelSet) (k : Nat) (frames : List RawFrame) :
    assemble s (frames.map (·.shift k)) =
      ((assemble s frames).map fun x => (x.1.shift k, x.2.shift k)).mapError (·.shift k) := by
  have hpushed := (TimelineBuilder.new s).pushAll_shift k frames
  rw [TimelineBuilder.shift_new] at hpushed
  rw [assemble, assemble, hpushed]
  cases (TimelineBuilder.new s).pushAll frames with
  | error e => rfl
  | ok b => exact b.finish_shift k

structure Reconciler.Renumbered (k : Nat) (r r' : Reconciler) : Prop where
  lastFrame : r'.lastFrame = r.lastFrame.map (· + k)
  horizon : r'.horizon = r.horizon.map (· + k)
  belief : ∀ n, r'.belief? n = (r.belief? n).map (·.shift k)
  step : ∀ f, r'.step (f.shift k) =
    ((r.step f).map fun x => (x.1.shift k, x.2.shift k)).mapError (·.shift k)
  skip : ∀ f, r'.skip (f.shift k) = ((r.skip f).map (·.shift k)).mapError (·.shift k)
  expireAll : r'.expireAll = (r.expireAll.1.shift k, r.expireAll.2.map fun e => (e.1, e.2.shift k))

theorem Reconciler.renumbered_shift (k : Nat) (r : Reconciler) : Renumbered k r (r.shift k) where
  lastFrame := rfl
  horizon := r.horizon_shift k
  belief := r.belief?_shift k
  step f := r.step_shift f k
  skip f := r.skip_shift f k
  expireAll := r.expireAll_shift k

theorem numbering_irrelevant (s : ModelSet) (k : Nat) :
    (∀ frames, assemble s (frames.map (·.shift k)) =
      ((assemble s frames).map fun x => (x.1.shift k, x.2.shift k)).mapError (·.shift k)) ∧
    ∀ ops, Reconciler.Renumbered k ((Reconciler.new s).performAll ops)
      ((Reconciler.new s).performAll (ops.map (·.shift k))) := by
  refine ⟨assemble_renumbered s k, fun ops => ?_⟩
  have hops := (Reconciler.new s).performAll_shift k ops
  rw [Reconciler.shift_new] at hops
  rw [hops]
  exact Reconciler.renumbered_shift k _

end GameTimeline
