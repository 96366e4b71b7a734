import GameTimeline.Reconcile.Belief

namespace GameTimeline

inductive Outcome where
  | accepted
  | confirmed
  | absent
  | lowConfidence
  | rejected
  | suspect
  deriving DecidableEq, Repr, Inhabited

def Outcome.isAccepted : Outcome → Bool
  | .accepted => true
  | .confirmed => true
  | _ => false

inductive DiscardReason where
  | rejected
  | suspectExpired
  | suspectSuperseded
  | lowConfidence
  deriving DecidableEq, Repr, Inhabited

structure Discard where
  frame : Nat
  value : FieldValue
  reason : DiscardReason
  deriving DecidableEq, Repr, Inhabited

def Discard.ofPending (reason : DiscardReason) (p : Pending) : Discard := ⟨p.frame, p.value, reason⟩

structure Revision where
  first : Nat
  last : Nat
  value : FieldValue
  deriving DecidableEq, Repr, Inhabited

def Revision.covers (r : Revision) (frame : Nat) : Bool := r.first ≤ frame && frame ≤ r.last

structure Observation where
  frame : Nat
  seq : Nat
  previousFrame : Option Nat
  reading : Reading
  confidence : Option Float32

structure FieldStep where
  value : Reading
  outcome : Outcome
  isTerminal : Bool
  revision : Option Revision
  discarded : List Discard
  deriving DecidableEq, Repr, Inhabited

namespace FieldStep

def held (b : Option Belief) (outcome : Outcome) (discarded : List Discard) : FieldStep :=
  ⟨b.bind Belief.value, outcome, false, none, discarded⟩

end FieldStep

structure Track where
  model : FieldModel
  belief : Option Belief
  deriving Inhabited

namespace Revision

def upTo? (previous : Option Nat) (ps : List Pending) (v : FieldValue) : Option Revision :=
  match ps.head?, previous with
  | some p, some last => if p.frame ≤ last then some ⟨p.frame, last, v⟩ else none
  | _, _ => none

end Revision

namespace Track

variable (m : FieldModel) (o : Observation)

def isFaint : Bool :=
  match m.minConfidence, o.confidence with
  | some least, some c => !c.isFinite || c < least
  | _, _ => false

def superseded (ps : List Pending) (v : FieldValue) : List Discard :=
  (ps.filter (·.value ≠ v)).map (.ofPending .suspectSuperseded)

def agreeing (ps : List Pending) (v : FieldValue) : List Pending :=
  ps.dropWhile (·.value ≠ v)

def acceptCandidate (b : Belief) (c : FieldValue) : Belief × FieldStep :=
  (.accept c o.frame,
    ⟨some c, .accepted, m.isTerminal c,
      Revision.upTo? o.previousFrame (agreeing b.pending c) c,
      superseded b.pending c⟩)

def confirm (b : Belief) (v : FieldValue) : Belief × FieldStep :=
  (.accept v o.frame,
    ⟨some v, .confirmed, m.isTerminal v,
      Revision.upTo? o.previousFrame b.pending v,
      superseded b.pending v⟩)

def confirmed? (b : Belief) : Option FieldValue :=
  (b.majority m.majority).filter fun v =>
    m.classify b.value v (b.elapsed o.frame) ≠ .reject

def addDiscards (ds : List Discard) (r : Belief × FieldStep) : Belief × FieldStep :=
  (r.1, { r.2 with discarded := ds ++ r.2.discarded })

def suspectCandidate (b : Belief) (c : FieldValue) : Belief × FieldStep :=
  let evicted := (b.evicted m.window).map (.ofPending .suspectExpired)
  let b' := b.push m.window ⟨o.frame, o.seq, c⟩
  match confirmed? m o b' with
  | none => (b', .held b' .suspect evicted)
  | some v => addDiscards evicted (confirm m o b' v)

def rejected (b : Belief) (v : FieldValue) : Belief × FieldStep :=
  (b, .held b .rejected [⟨o.frame, v, .rejected⟩])

def weigh (b : Belief) (raw : FieldValue) : Belief × FieldStep :=
  match m.normalize raw with
  | none => rejected o b raw
  | some c =>
      match m.classify b.value c (b.elapsed o.frame) with
      | .accept => acceptCandidate m o b c
      | .reject => rejected o b c
      | .suspect => suspectCandidate m o b c

def meet (b : Option Belief) : Option Belief × FieldStep :=
  match o.reading with
  | none => (b, .held b .absent [])
  | some raw =>
      if isFaint m o then (b, .held b .lowConfidence [⟨o.frame, raw, .lowConfidence⟩])
      else
        let r := weigh m o (b.getD .empty) raw
        (some r.1, r.2)

def step (t : Track) (o : Observation) : Track × FieldStep :=
  let stale := (t.belief.elim [] (·.stale t.model.window o.seq)).map (.ofPending .suspectExpired)
  let r := meet t.model o (t.belief.map (·.expire t.model.window o.seq))
  (⟨t.model, r.1⟩, { r.2 with discarded := stale ++ r.2.discarded })

def clear (t : Track) : Track × List Discard :=
  (⟨t.model, t.belief.map fun b => { b with pending := [] }⟩,
    (t.belief.elim [] (·.pending)).map (.ofPending .suspectExpired))

def firstPending (t : Track) : Option Nat := t.belief.bind Belief.firstPending

end Track

end GameTimeline
