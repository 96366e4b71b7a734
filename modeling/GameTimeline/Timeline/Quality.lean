import GameTimeline.Reconcile.Reconciler

namespace GameTimeline

structure FieldQuality where
  accepted : Nat
  confirmed : Nat
  held : Nat
  rejected : Nat
  suspect : Nat
  revisedFrames : Nat
  suspectExpired : Nat
  suspectSuperseded : Nat
  lowConfidence : Nat
  ignoredAfterFreeze : Nat
  unresolvedFrames : Nat
  deriving DecidableEq, Repr, Inhabited

namespace FieldQuality

def zero : FieldQuality := ⟨0, 0, 0, 0, 0, 0, 0, 0, 0, 0, 0⟩

def discarded (q : FieldQuality) : Nat :=
  q.rejected + q.suspectExpired + q.suspectSuperseded + q.lowConfidence

def isClean (q : FieldQuality) : Bool :=
  q.discarded = 0 && q.suspect = 0 && q.revisedFrames = 0

def addOutcome (q : FieldQuality) : Outcome → FieldQuality
  | .accepted => { q with accepted := q.accepted + 1 }
  | .confirmed => { q with confirmed := q.confirmed + 1 }
  | .absent => { q with held := q.held + 1 }
  | .rejected => { q with rejected := q.rejected + 1 }
  | .suspect => { q with suspect := q.suspect + 1 }
  | .lowConfidence => q

def addUnresolved (q : FieldQuality) (value : Reading) : FieldQuality :=
  if value.isNone then { q with unresolvedFrames := q.unresolvedFrames + 1 } else q

def addDiscard (q : FieldQuality) : DiscardReason → FieldQuality
  | .rejected => q
  | .suspectExpired => { q with suspectExpired := q.suspectExpired + 1 }
  | .suspectSuperseded => { q with suspectSuperseded := q.suspectSuperseded + 1 }
  | .lowConfidence => { q with lowConfidence := q.lowConfidence + 1 }

def addRevised (q : FieldQuality) (frames : Nat) : FieldQuality :=
  { q with revisedFrames := q.revisedFrames + frames }

def addIgnored (q : FieldQuality) : FieldQuality :=
  { q with ignoredAfterFreeze := q.ignoredAfterFreeze + 1 }

def counts (q : FieldQuality) : List (String × Nat) :=
  [("accepted", q.accepted), ("confirmed", q.confirmed), ("held", q.held),
   ("rejected", q.rejected), ("suspect", q.suspect), ("revised_frames", q.revisedFrames),
   ("suspect_expired", q.suspectExpired), ("suspect_superseded", q.suspectSuperseded),
   ("low_confidence", q.lowConfidence), ("ignored_after_freeze", q.ignoredAfterFreeze),
   ("unresolved_frames", q.unresolvedFrames)]

end FieldQuality

structure QualityReport where
  framesIn : Nat
  framesOut : Nat
  frozenAt : Option Nat
  fields : Table FieldQuality
  deriving DecidableEq, Inhabited

namespace QualityReport

def new (s : ModelSet) : QualityReport := ⟨0, 0, none, s.models.map fun _ _ => .zero⟩

def isClean (q : QualityReport) : Bool := q.fields.values.all FieldQuality.isClean

def totalDiscarded (q : QualityReport) : Nat :=
  q.fields.values.foldr (fun f n => f.discarded + n) 0

def modify (q : QualityReport) (field : String) (f : FieldQuality → FieldQuality) : QualityReport :=
  { q with fields := q.fields.modify field f }

def addFrame (q : QualityReport) : QualityReport := { q with framesIn := q.framesIn + 1 }

def addStep (q : QualityReport) (field : String) (s : FieldStep) : QualityReport :=
  q.modify field fun f => (f.addOutcome s.outcome).addUnresolved s.value

def addSteps (q : QualityReport) (r : StepReport) : QualityReport :=
  r.fields.entries.foldl (fun q e => q.addStep e.1 e.2) q

def addDiscards (q : QualityReport) (ds : List (String × Discard)) : QualityReport :=
  ds.foldl (fun q d => q.modify d.1 (·.addDiscard d.2.reason)) q

def addIgnored (q : QualityReport) (f : RawFrame) : QualityReport :=
  (f.readings.entries.filter (·.2.isSome)).foldl (fun q e => q.modify e.1 (·.addIgnored)) q

def toJson (q : QualityReport) : Json :=
  .obj [("frames_in", .nat q.framesIn), ("frames_out", .nat q.framesOut),
    ("frozen_at", .option Json.nat q.frozenAt),
    ("fields", .table (fun f => .obj (f.counts.map fun c => (c.1, .nat c.2))) q.fields)]

def frozenText : Option Nat → String
  | none => "none"
  | some n => Text.showNat n

def labelled (cs : List (String × Nat)) : String :=
  String.intercalate " " (cs.map fun c => c.1 ++ "=" ++ Text.showNat c.2)

def fieldText (name : String) (q : FieldQuality) : String :=
  "    " ++ name ++ ": " ++
    labelled [("accepted", q.accepted), ("confirmed", q.confirmed), ("held", q.held),
      ("rejected", q.rejected), ("suspect", q.suspect), ("revised", q.revisedFrames)] ++
    "\n    " ++ String.ofList (List.replicate name.utf8ByteSize ' ') ++ "  " ++
    labelled [("expired", q.suspectExpired), ("superseded", q.suspectSuperseded),
      ("low_confidence", q.lowConfidence), ("ignored", q.ignoredAfterFreeze),
      ("unresolved", q.unresolvedFrames)] ++ "\n"

def display (q : QualityReport) : String :=
  "QualityReport \x7b\n  frames_in: " ++ Text.showNat q.framesIn ++
    "\n  frames_out: " ++ Text.showNat q.framesOut ++
    "\n  frozen_at: " ++ frozenText q.frozenAt ++
    "\n  discarded: " ++ Text.showNat q.totalDiscarded ++
    "\n  fields: " ++ Text.showNat q.fields.size ++ "\n" ++
    String.join (q.fields.entries.map fun e => fieldText e.1 e.2) ++ "\x7d"

end QualityReport

end GameTimeline
