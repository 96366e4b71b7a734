import GameTimeline.Timeline.Builder

namespace GameTimeline

section Retime

variable (g : Float → Float)

def RawFrame.retime (f : RawFrame) : RawFrame := { f with timestamp := g f.timestamp }

def StepReport.retime (r : StepReport) : StepReport := { r with timestamp := g r.timestamp }

def CorrectedState.retime (x : CorrectedState) : CorrectedState :=
  { x with timestamp := g x.timestamp }

def Timeline.retime (t : Timeline) : Timeline := ⟨t.states.map (·.retime g)⟩

def TimelineBuilder.retime (b : TimelineBuilder) : TimelineBuilder :=
  { b with openStates := b.openStates.map (·.retime g), closed := b.closed.retime g }

end Retime

theorem CorrectedState.revise_retime (x : CorrectedState) (g : Float → Float) (field : String)
    (r : Revision) : (x.retime g).revise field r = (x.revise field r).retime g := by
  have hframe : (x.retime g).frame = x.frame := rfl
  rw [revise, revise, hframe]
  split <;> rfl

namespace Timeline

variable (t : Timeline) (g : Float → Float)

theorem size_retime : (t.retime g).size = t.size := by
  simp [size, retime]

theorem append_retime (x : CorrectedState) :
    (t.retime g).append (x.retime g) = (t.append x).retime g := by
  have hlast : (t.retime g).lastFrame? = t.lastFrame? := by
    simp [lastFrame?, retime, CorrectedState.retime, Function.comp_def]
  have hadvances : (t.retime g).advances (x.retime g).frame = t.advances x.frame := by
    rw [advances, advances, hlast]
    rfl
  rw [append, append, hadvances]
  split <;> simp [retime]

theorem appendAll_retime (xs : List CorrectedState) :
    (t.retime g).appendAll (xs.map (·.retime g)) = (t.appendAll xs).retime g := by
  rw [appendAll, List.foldl_map]
  exact List.foldl_hom (retime g) fun t x => append_retime t g x

end Timeline

theorem Reconciler.step_retime (r : Reconciler) (f : RawFrame) (g : Float → Float) :
    r.step (f.retime g) = (r.step f).map fun x => (x.1, x.2.retime g) := by
  have hcheck : r.check (f.retime g) = r.check f := rfl
  rw [step, step, hcheck]
  cases r.check f <;> rfl

namespace TimelineBuilder

variable (b : TimelineBuilder) (f : RawFrame) (g : Float → Float)

abbrev retimeClosed (x : TimelineBuilder × List CorrectedState) :
    TimelineBuilder × List CorrectedState :=
  (x.1.retime g, x.2.map (·.retime g))

theorem close_retime (states rest : List CorrectedState) :
    (b.retime g).close (states.map (·.retime g)) (rest.map (·.retime g)) =
      retimeClosed g (b.close states rest) := by
  simp [close, retime, Timeline.appendAll_retime]

theorem closeAll_retime : (b.retime g).closeAll = retimeClosed g b.closeAll :=
  b.close_retime g b.openStates []

theorem closeFinal_retime : (b.retime g).closeFinal = retimeClosed g b.closeFinal := by
  have hreconciler : (b.retime g).reconciler = b.reconciler := rfl
  have hopen : (b.retime g).openStates = b.openStates.map (·.retime g) := rfl
  rw [closeFinal, closeFinal, hreconciler]
  cases b.reconciler.horizon with
  | none => exact b.closeAll_retime g
  | some h =>
      have hbefore (x : CorrectedState) :
          decide ((x.retime g).frame < h) = decide (x.frame < h) := rfl
      simp only [hopen, List.takeWhile_map, List.dropWhile_map, Function.comp_def, hbefore,
        close_retime]

theorem applyRevision_retime (e : String × Revision) :
    (b.retime g).applyRevision e = (b.applyRevision e).retime g := by
  simp [applyRevision, retime, List.countP_map, Function.comp_def, CorrectedState.revise_retime]
  rfl

theorem takeReport_retime (r : StepReport) :
    (b.retime g).takeReport (r.retime g) = (b.takeReport r).retime g := by
  have hrevised : r.revisions.foldl applyRevision
      (retime g { b with quality := b.quality.addFrame }) =
        (r.revisions.foldl applyRevision { b with quality := b.quality.addFrame }).retime g :=
    List.foldl_hom (retime g) fun b e => applyRevision_retime b g e
  have hrevisions : (r.retime g).revisions = r.revisions := rfl
  have hstart : { b.retime g with quality := (b.retime g).quality.addFrame } =
      retime g { b with quality := b.quality.addFrame } := rfl
  simp only [takeReport, hrevisions, hstart, hrevised]
  simp [openRecord, addDiscards, retime]
  exact ⟨rfl, rfl⟩

theorem settle_retime (r : StepReport) :
    (b.retime g).settle (r.retime g) = retimeClosed g (b.settle r) := by
  have hterminal : (r.retime g).terminal = r.terminal := rfl
  rw [settle, settle, hterminal]
  cases r.terminal with
  | nil => exact b.closeFinal_retime g
  | cons field fields => exact ((b.freeze r field).expireAll).closeAll_retime g

theorem pushActive_retime :
    (b.retime g).pushActive (f.retime g) = (b.pushActive f).map (retimeClosed g) := by
  have hreconciler : (b.retime g).reconciler = b.reconciler := rfl
  rw [pushActive, pushActive, hreconciler, Reconciler.step_retime]
  cases b.reconciler.step f with
  | error e => rfl
  | ok x =>
      have htaken := takeReport_retime { b with reconciler := x.1 } g x.2
      have hsettled := settle_retime ({ b with reconciler := x.1 }.takeReport x.2) g x.2
      rw [← htaken] at hsettled
      exact congrArg Except.ok hsettled

theorem pushFrozen_retime (values : Table Reading) : (b.retime g).pushFrozen (f.retime g) values =
    (b.pushFrozen f values).map (retimeClosed g) := by
  have hskip : (b.retime g).reconciler.skip (f.retime g) = b.reconciler.skip f := rfl
  rw [pushFrozen, pushFrozen, hskip]
  cases b.reconciler.skip f with
  | error e => rfl
  | ok r =>
      have hclosed := closeAll_retime ({ b with
        reconciler := r, quality := b.quality.addFrame.addIgnored f }.openRecord
          (replay f values)) g
      simp only [openRecord, retime, List.map_append] at hclosed
      exact congrArg Except.ok hclosed

theorem push_retime : (b.retime g).push (f.retime g) =
    ((b.push f).1.retime g, (b.push f).2.map (List.map (·.retime g))) := by
  have hpoisoned : (b.retime g).poisoned = b.poisoned := rfl
  have hnext : (b.retime g).pushNext (f.retime g) = (b.pushNext f).map (retimeClosed g) := by
    have hsession : (b.retime g).session = b.session := rfl
    rw [pushNext, pushNext, hsession]
    cases b.session with
    | active => exact b.pushActive_retime f g
    | frozen frame field values => exact b.pushFrozen_retime f g values
  rw [push, push, hpoisoned, hnext]
  split
  · rfl
  · cases b.pushNext f <;> rfl

theorem pushAll_retime (frames : List RawFrame) :
    (b.retime g).pushAll (frames.map (·.retime g)) = (b.pushAll frames).map (·.retime g) := by
  induction frames generalizing b with
  | nil => rfl
  | cons f rest ih =>
      rw [List.map_cons, pushAll, pushAll, push_retime]
      obtain ⟨b', result⟩ := b.push f
      cases result with
      | error e => rfl
      | ok states => exact ih b'

theorem finish_retime : (b.retime g).finish = b.finish.map fun x => (x.1.retime g, x.2) := by
  have hpoisoned : (b.retime g).poisoned = b.poisoned := rfl
  have hclosed : (b.retime g).expireAll.closeAll = retimeClosed g b.expireAll.closeAll :=
    b.expireAll.closeAll_retime g
  rw [finish, finish, hpoisoned, hclosed]
  split
  · rfl
  · refine congrArg Except.ok (Prod.ext rfl ?_)
    simp [retime, Timeline.size_retime]

end TimelineBuilder

theorem assemble_retime (s : ModelSet) (g : Float → Float) (frames : List RawFrame) :
    assemble s (frames.map (·.retime g)) =
      (assemble s frames).map fun x => (x.1.retime g, x.2) := by
  have hnew : (TimelineBuilder.new s).retime g = .new s := by
    simp [TimelineBuilder.retime, TimelineBuilder.new, Timeline.retime, Timeline.empty]
  have hpushed := (TimelineBuilder.new s).pushAll_retime g frames
  rw [hnew] at hpushed
  rw [assemble, assemble, hpushed]
  cases (TimelineBuilder.new s).pushAll frames with
  | error e => rfl
  | ok b => exact b.finish_retime g

end GameTimeline
