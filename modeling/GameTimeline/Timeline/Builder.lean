import GameTimeline.Timeline.Quality
import GameTimeline.Timeline.Store

namespace GameTimeline

inductive BuildError where
  | input (e : InputError)
  | poisoned

def BuildError.message : BuildError → String
  | .input e => e.message
  | .poisoned => "timeline builder poisoned by an earlier fatal error"

inductive SessionState where
  | active
  | frozen (frame : Nat) (field : String) (values : Table Reading)
  deriving Inhabited

def SessionState.isFrozen : SessionState → Bool
  | .active => false
  | .frozen _ _ _ => true

def FieldStep.provenance (s : FieldStep) : Provenance :=
  if s.value.isNone then .unresolved
  else if s.outcome.isAccepted then .observed
  else .held

def StepReport.record (r : StepReport) : CorrectedState :=
  ⟨r.frame, r.timestamp, r.fields.map fun _ s => s.value, r.fields.map fun _ s => s.provenance⟩

namespace CorrectedState

def revise (s : CorrectedState) (field : String) (r : Revision) : CorrectedState :=
  if r.covers s.frame then
    { s with
      fields := s.fields.insert field (some r.value)
      provenance := s.provenance.insert field .revised }
  else s

end CorrectedState

structure TimelineBuilder where
  reconciler : Reconciler
  openStates : List CorrectedState
  closed : Timeline
  session : SessionState
  quality : QualityReport
  poisoned : Bool
  deriving Inhabited

namespace TimelineBuilder

def new (s : ModelSet) : TimelineBuilder :=
  ⟨.new s, [], .empty, .active, .new s, false⟩

def close (b : TimelineBuilder) (states rest : List CorrectedState) :
    TimelineBuilder × List CorrectedState :=
  ({ b with openStates := rest, closed := b.closed.appendAll states }, states)

def closeAll (b : TimelineBuilder) : TimelineBuilder × List CorrectedState :=
  b.close b.openStates []

def closeFinal (b : TimelineBuilder) : TimelineBuilder × List CorrectedState :=
  match b.reconciler.horizon with
  | none => b.closeAll
  | some h =>
      b.close (b.openStates.takeWhile (·.frame < h)) (b.openStates.dropWhile (·.frame < h))

def applyRevision (b : TimelineBuilder) (e : String × Revision) : TimelineBuilder :=
  { b with
    openStates := b.openStates.map fun s => s.revise e.1 e.2
    quality := b.quality.modify e.1 fun q =>
      q.addRevised (b.openStates.countP fun s => e.2.covers s.frame) }

def addDiscards (b : TimelineBuilder) (ds : List (String × Discard)) : TimelineBuilder :=
  { b with quality := b.quality.addDiscards ds }

def expireAll (b : TimelineBuilder) : TimelineBuilder :=
  let r := b.reconciler.expireAll
  { b with reconciler := r.1 }.addDiscards r.2

def openRecord (b : TimelineBuilder) (s : CorrectedState) : TimelineBuilder :=
  { b with openStates := b.openStates ++ [s] }

def takeReport (b : TimelineBuilder) (r : StepReport) : TimelineBuilder :=
  let b := r.revisions.foldl applyRevision { b with quality := b.quality.addFrame }
  let b := b.addDiscards r.discarded
  { b with quality := b.quality.addSteps r }.openRecord r.record

def freeze (b : TimelineBuilder) (r : StepReport) (field : String) : TimelineBuilder :=
  { b with
    session := .frozen r.frame field r.record.fields
    quality := { b.quality with frozenAt := some r.frame } }

def settle (b : TimelineBuilder) (r : StepReport) : TimelineBuilder × List CorrectedState :=
  match r.terminal with
  | [] => b.closeFinal
  | field :: _ => ((b.freeze r field).expireAll).closeAll

def pushActive (b : TimelineBuilder) (f : RawFrame) :
    Except InputError (TimelineBuilder × List CorrectedState) := do
  let (reconciler, report) ← b.reconciler.step f
  pure (({ b with reconciler }.takeReport report).settle report)

def replay (f : RawFrame) (values : Table Reading) : CorrectedState :=
  ⟨f.frame, f.timestamp, values, values.map fun _ _ => .frozen⟩

def pushFrozen (b : TimelineBuilder) (f : RawFrame) (values : Table Reading) :
    Except InputError (TimelineBuilder × List CorrectedState) := do
  let reconciler ← b.reconciler.skip f
  let quality := b.quality.addFrame.addIgnored f
  pure ({ b with reconciler, quality }.openRecord (replay f values)).closeAll

def pushNext (b : TimelineBuilder) (f : RawFrame) :
    Except InputError (TimelineBuilder × List CorrectedState) :=
  match b.session with
  | .active => b.pushActive f
  | .frozen _ _ values => b.pushFrozen f values

def push (b : TimelineBuilder) (f : RawFrame) :
    TimelineBuilder × Except BuildError (List CorrectedState) :=
  if b.poisoned then (b, .error .poisoned)
  else
    match b.pushNext f with
    | .ok (b', closed) => (b', .ok closed)
    | .error e => ({ b with poisoned := true }, .error (.input e))

def finish (b : TimelineBuilder) : Except BuildError (Timeline × QualityReport) :=
  if b.poisoned then .error .poisoned
  else
    let b := b.expireAll.closeAll.1
    .ok (b.closed, { b.quality with framesOut := b.closed.size })

def pushAll (b : TimelineBuilder) : List RawFrame → Except BuildError TimelineBuilder
  | [] => .ok b
  | f :: r =>
      match b.push f with
      | (b', .ok _) => b'.pushAll r
      | (_, .error e) => .error e

end TimelineBuilder

def assemble (s : ModelSet) (frames : List RawFrame) :
    Except BuildError (Timeline × QualityReport) := do
  let b ← (TimelineBuilder.new s).pushAll frames
  b.finish

end GameTimeline
