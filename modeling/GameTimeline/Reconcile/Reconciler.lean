import GameTimeline.Field.ModelSet
import GameTimeline.Reconcile.Track
import GameTimeline.Timeline.RawFrame

namespace GameTimeline

inductive InputError where
  | outOfOrder (previous got : Nat)
  | rule (e : RuleError)

def InputError.message : InputError → String
  | .outOfOrder p g =>
      "out-of-order input: frame " ++ Text.showNat g ++ " does not follow frame " ++ Text.showNat p
  | .rule e => "configuration error: " ++ e.message

structure StepReport where
  frame : Nat
  timestamp : Float
  fields : Table FieldStep

namespace StepReport

def revisions (r : StepReport) : List (String × Revision) :=
  r.fields.entries.filterMap fun e => e.2.revision.map (e.1, ·)

def discarded (r : StepReport) : List (String × Discard) :=
  r.fields.entries.flatMap fun e => e.2.discarded.map (e.1, ·)

def terminal (r : StepReport) : List String :=
  (r.fields.entries.filter (·.2.isTerminal)).map (·.1)

end StepReport

structure Reconciler where
  tracks : Table Track
  lastFrame : Option Nat
  seq : Nat
  deriving Inhabited

namespace Reconciler

def new (s : ModelSet) : Reconciler := ⟨s.models.map fun _ m => ⟨m, none⟩, none, 0⟩

def belief? (r : Reconciler) (field : String) : Option Belief :=
  (r.tracks.get? field).bind (·.belief)

def horizon (r : Reconciler) : Option Nat := (r.tracks.values.filterMap Track.firstPending).min?

def unknownField? (r : Reconciler) (f : RawFrame) : Option String :=
  f.readings.keys.find? fun n => !r.tracks.contains n

def check (r : Reconciler) (f : RawFrame) : Except InputError Unit :=
  let unknown : Except InputError Unit := match r.unknownField? f with
    | some n => .error (.rule (.unknownField n f.frame))
    | none => .ok ()
  match r.lastFrame with
  | some p => if f.frame ≤ p then .error (.outOfOrder p f.frame) else unknown
  | none => unknown

def advance (r : Reconciler) (f : RawFrame) : Reconciler :=
  { r with lastFrame := some f.frame, seq := r.seq + 1 }

def skip (r : Reconciler) (f : RawFrame) : Except InputError Reconciler := do
  r.check f
  pure (r.advance f)

def observation (r : Reconciler) (f : RawFrame) (field : String) : Observation :=
  ⟨f.frame, r.seq + 1, r.lastFrame, f.reading field, f.confidenceOf field⟩

def stepTracks (r : Reconciler) (f : RawFrame) : Table (Track × FieldStep) :=
  r.tracks.map fun n t => t.step (r.observation f n)

def step (r : Reconciler) (f : RawFrame) : Except InputError (Reconciler × StepReport) := do
  r.check f
  let stepped := r.stepTracks f
  pure ({ r.advance f with tracks := stepped.map fun _ s => s.1 },
    ⟨f.frame, f.timestamp, stepped.map fun _ s => s.2⟩)

def expireAll (r : Reconciler) : Reconciler × List (String × Discard) :=
  ({ r with tracks := r.tracks.map fun _ t => t.clear.1 },
    r.tracks.entries.flatMap fun e => e.2.clear.2.map (e.1, ·))

end Reconciler

end GameTimeline
