import GameTimeline.Field.Model

namespace GameTimeline

structure Pending where
  frame : Nat
  seq : Nat
  value : FieldValue
  deriving DecidableEq, Repr, Inhabited

structure Belief where
  accepted : Option (FieldValue × Nat)
  pending : List Pending
  deriving DecidableEq, Repr, Inhabited

namespace Belief

def empty : Belief := ⟨none, []⟩

def value (b : Belief) : Reading := b.accepted.map (·.1)

def acceptedFrame (b : Belief) : Option Nat := b.accepted.map (·.2)

def elapsed (b : Belief) (frame : Nat) : Nat :=
  match b.acceptedFrame with
  | none => 0
  | some f => frame - f

def firstPending (b : Belief) : Option Nat := b.pending.head?.map (·.frame)

def isStale (window seq : Nat) (p : Pending) : Bool := window ≤ seq - p.seq

def stale (b : Belief) (window seq : Nat) : List Pending := b.pending.takeWhile (isStale window seq)

def expire (b : Belief) (window seq : Nat) : Belief :=
  { b with pending := b.pending.dropWhile (isStale window seq) }

theorem stale_append_expire (b : Belief) (window seq : Nat) :
    b.stale window seq ++ (b.expire window seq).pending = b.pending :=
  List.takeWhile_append_dropWhile

def evicted (b : Belief) (window : Nat) : List Pending :=
  if window ≤ b.pending.length then b.pending.take 1 else []

def push (b : Belief) (window : Nat) (p : Pending) : Belief :=
  { b with pending := b.pending.drop (b.evicted window).length ++ [p] }

def accept (v : FieldValue) (frame : Nat) : Belief := ⟨some (v, frame), []⟩

def votes (ps : List Pending) (v : FieldValue) : Nat := ps.countP (·.value = v)

def prefer (ps : List Pending) (threshold : Nat) (best : Option (Nat × FieldValue)) (p : Pending) :
    Option (Nat × FieldValue) :=
  let n := votes ps p.value
  if n < threshold then best
  else match best with
    | none => some (n, p.value)
    | some (c, _) => if c ≤ n then some (n, p.value) else best

def majority (b : Belief) (threshold : Nat) : Option FieldValue :=
  (b.pending.foldl (prefer b.pending threshold) none).map (·.2)

end Belief

end GameTimeline
