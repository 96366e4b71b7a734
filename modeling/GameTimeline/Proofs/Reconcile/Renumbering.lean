import GameTimeline.Proofs.Reconcile.Operation

namespace GameTimeline

section Shift

variable (k : Nat)

def RawFrame.shift (f : RawFrame) : RawFrame := { f with frame := f.frame + k }

def Pending.shift (p : Pending) : Pending := { p with frame := p.frame + k }

def Belief.shift (b : Belief) : Belief :=
  ⟨b.accepted.map fun a => (a.1, a.2 + k), b.pending.map (·.shift k)⟩

def Discard.shift (d : Discard) : Discard := { d with frame := d.frame + k }

def Revision.shift (r : Revision) : Revision := ⟨r.first + k, r.last + k, r.value⟩

def Observation.shift (o : Observation) : Observation :=
  { o with frame := o.frame + k, previousFrame := o.previousFrame.map (· + k) }

def FieldStep.shift (st : FieldStep) : FieldStep :=
  { st with
    revision := st.revision.map (·.shift k)
    discarded := st.discarded.map (·.shift k) }

def Track.shift (t : Track) : Track := { t with belief := t.belief.map (·.shift k) }

def StepReport.shift (r : StepReport) : StepReport :=
  { r with frame := r.frame + k, fields := r.fields.map fun _ st => st.shift k }

def Reconciler.shift (r : Reconciler) : Reconciler :=
  { r with tracks := r.tracks.map fun _ t => t.shift k, lastFrame := r.lastFrame.map (· + k) }

def RuleError.shift : RuleError → RuleError
  | .unknownField n f => .unknownField n (f + k)
  | e => e

def InputError.shift : InputError → InputError
  | .outOfOrder p g => .outOfOrder (p + k) (g + k)
  | .rule e => .rule (e.shift k)

def Operation.shift : Operation → Operation
  | .step f => .step (f.shift k)
  | .skip f => .skip (f.shift k)
  | .expireAll => .expireAll

end Shift

namespace Belief

variable (b : Belief) (k window seq threshold : Nat)

@[simp] theorem shift_value : (b.shift k).value = b.value := by
  simp [value, shift, Function.comp_def]

@[simp] theorem shift_pending : (b.shift k).pending = b.pending.map (·.shift k) := rfl

@[simp] theorem shift_elapsed (frame : Nat) :
    (b.shift k).elapsed (frame + k) = b.elapsed frame := by
  obtain ⟨accepted, pending⟩ := b
  cases accepted with
  | none => rfl
  | some a => exact Nat.add_sub_add_right frame k a.2

theorem shift_firstPending : (b.shift k).firstPending = b.firstPending.map (· + k) := by
  simp [firstPending, Function.comp_def, Pending.shift]

theorem isStale_shift (p : Pending) : isStale window seq (p.shift k) = isStale window seq p := rfl

theorem shift_stale : (b.shift k).stale window seq = (b.stale window seq).map (·.shift k) := by
  simp [stale, List.takeWhile_map, Function.comp_def, isStale_shift]

theorem shift_expire : (b.shift k).expire window seq = (b.expire window seq).shift k := by
  simp [expire, shift, List.dropWhile_map, Function.comp_def, isStale_shift]

theorem shift_evicted : (b.shift k).evicted window = (b.evicted window).map (·.shift k) := by
  simp only [evicted, shift_pending, List.length_map]
  split
  · rw [List.map_take]
  · rfl

theorem shift_push (p : Pending) :
    (b.shift k).push window (p.shift k) = (b.push window p).shift k := by
  simp only [push, shift_evicted, List.length_map, shift_pending, ← List.map_drop]
  simp [shift]

theorem votes_shift (ps : List Pending) (v : FieldValue) :
    votes (ps.map (·.shift k)) v = votes ps v := by
  simp [votes, List.countP_map, Function.comp_def, Pending.shift]

theorem prefer_shift (ps : List Pending) (best : Option (Nat × FieldValue)) (p : Pending) :
    prefer (ps.map (·.shift k)) threshold best (p.shift k) = prefer ps threshold best p := by
  have hvalue : (p.shift k).value = p.value := rfl
  simp only [prefer, hvalue, votes_shift]

@[simp] theorem shift_majority : (b.shift k).majority threshold = b.majority threshold := by
  simp only [majority, shift_pending, List.foldl_map, prefer_shift]

end Belief

namespace Track

variable (m : FieldModel) (o : Observation) (b : Belief) (v : FieldValue) (k : Nat)

theorem superseded_shift (ps : List Pending) :
    superseded (ps.map (·.shift k)) v = (superseded ps v).map (·.shift k) := by
  simp only [superseded, List.filter_map, List.map_map]
  rfl

theorem agreeing_shift (ps : List Pending) :
    agreeing (ps.map (·.shift k)) v = (agreeing ps v).map (·.shift k) := by
  simp [agreeing, List.dropWhile_map, Function.comp_def, Pending.shift]

theorem upTo?_shift (previous : Option Nat) (ps : List Pending) :
    Revision.upTo? (previous.map (· + k)) (ps.map (·.shift k)) v =
      (Revision.upTo? previous ps v).map (·.shift k) := by
  cases ps with
  | nil => rfl
  | cons p ps =>
      cases previous with
      | none => rfl
      | some last =>
          have hiff : p.frame + k ≤ last + k ↔ p.frame ≤ last := by omega
          by_cases hle : p.frame ≤ last <;>
            simp [Revision.upTo?, Pending.shift, Revision.shift, hiff, hle]

theorem isFaint_shift : isFaint m (o.shift k) = isFaint m o := rfl

theorem map_ofPending_shift (reason : DiscardReason) (ps : List Pending) :
    (ps.map (·.shift k)).map (.ofPending reason) =
      (ps.map (Discard.ofPending reason)).map (·.shift k) := by
  rw [List.map_map, List.map_map]
  rfl

theorem held_shift (b : Option Belief) (outcome : Outcome) (ds : List Discard) :
    FieldStep.held (b.map (·.shift k)) outcome (ds.map (·.shift k)) =
      (FieldStep.held b outcome ds).shift k := by
  cases b <;> simp [FieldStep.held, FieldStep.shift]

abbrev shiftBoth (r : Belief × FieldStep) : Belief × FieldStep := (r.1.shift k, r.2.shift k)

theorem acceptCandidate_shift :
    acceptCandidate m (o.shift k) (b.shift k) v = shiftBoth k (acceptCandidate m o b v) := by
  simp only [acceptCandidate, Belief.shift_pending, agreeing_shift, superseded_shift,
    Observation.shift, upTo?_shift]
  rfl

theorem confirm_shift :
    confirm m (o.shift k) (b.shift k) v = shiftBoth k (confirm m o b v) := by
  simp only [confirm, Belief.shift_pending, superseded_shift, Observation.shift, upTo?_shift]
  rfl

theorem confirmed?_shift : confirmed? m (o.shift k) (b.shift k) = confirmed? m o b := by
  simp only [confirmed?, Belief.shift_majority, Belief.shift_value, Observation.shift,
    Belief.shift_elapsed]

theorem addDiscards_shift (ds : List Discard) (r : Belief × FieldStep) :
    addDiscards (ds.map (·.shift k)) (shiftBoth k r) = shiftBoth k (addDiscards ds r) := by
  simp [addDiscards, FieldStep.shift]

theorem suspectCandidate_shift :
    suspectCandidate m (o.shift k) (b.shift k) v = shiftBoth k (suspectCandidate m o b v) := by
  have hpush : (b.shift k).push m.window ⟨o.frame + k, o.seq, v⟩ =
      (b.push m.window ⟨o.frame, o.seq, v⟩).shift k :=
    b.shift_push k m.window ⟨o.frame, o.seq, v⟩
  have hframe : (o.shift k).frame = o.frame + k := rfl
  have hseq : (o.shift k).seq = o.seq := rfl
  simp only [suspectCandidate, hframe, hseq, hpush, Belief.shift_evicted, map_ofPending_shift,
    confirmed?_shift]
  cases confirmed? m o (b.push m.window ⟨o.frame, o.seq, v⟩) with
  | none => exact congrArg (Prod.mk _) (held_shift k (some _) .suspect _)
  | some w => simp only [confirm_shift, addDiscards_shift]

theorem rejected_shift : rejected (o.shift k) (b.shift k) v = shiftBoth k (rejected o b v) :=
  congrArg (Prod.mk _) (held_shift k (some b) .rejected [⟨o.frame, v, .rejected⟩])

theorem weigh_shift : weigh m (o.shift k) (b.shift k) v = shiftBoth k (weigh m o b v) := by
  have hframe : (o.shift k).frame = o.frame + k := rfl
  simp only [weigh, hframe, Belief.shift_value, Belief.shift_elapsed]
  cases m.normalize v with
  | none => exact rejected_shift o b v k
  | some c =>
      cases hverdict : m.classify b.value c (b.elapsed o.frame) with
      | accept => simp only [hverdict, acceptCandidate_shift]
      | reject => simp only [hverdict, rejected_shift]
      | suspect => simp only [hverdict, suspectCandidate_shift]

theorem meet_shift (b : Option Belief) :
    meet m (o.shift k) (b.map (·.shift k)) =
      ((meet m o b).1.map (·.shift k), (meet m o b).2.shift k) := by
  have hreading : (o.shift k).reading = o.reading := rfl
  have hbelief : (b.map (·.shift k)).getD .empty = (b.getD .empty).shift k := by
    cases b <;> rfl
  simp only [meet, hreading, isFaint_shift]
  cases o.reading with
  | none => exact congrArg (Prod.mk _) (held_shift k b .absent [])
  | some raw =>
      by_cases hfaint : isFaint m o = true
      · simp only [hfaint, if_true]
        exact congrArg (Prod.mk _) (held_shift k b .lowConfidence [⟨o.frame, raw, .lowConfidence⟩])
      · simp only [hfaint, hbelief, weigh_shift]
        rfl

variable (t : Track)

theorem step_shift :
    (t.shift k).step (o.shift k) = ((t.step o).1.shift k, (t.step o).2.shift k) := by
  obtain ⟨m, b⟩ := t
  have hstale : (b.map (·.shift k)).elim [] (·.stale m.window o.seq) =
      (b.elim [] (·.stale m.window o.seq)).map (·.shift k) := by
    cases b with
    | none => rfl
    | some b => exact b.shift_stale k m.window o.seq
  have hexpire : (b.map (·.shift k)).map (·.expire m.window o.seq) =
      (b.map (·.expire m.window o.seq)).map (·.shift k) := by
    cases b with
    | none => rfl
    | some b => exact congrArg some (b.shift_expire k m.window o.seq)
  have hseq : (o.shift k).seq = o.seq := rfl
  simp only [step, shift, hseq, hstale, hexpire, map_ofPending_shift, meet_shift]
  simp [FieldStep.shift]

theorem clear_shift : (t.shift k).clear = (t.clear.1.shift k, t.clear.2.map (·.shift k)) := by
  obtain ⟨m, b⟩ := t
  cases b with
  | none => rfl
  | some b => exact congrArg (Prod.mk _) (map_ofPending_shift k .suspectExpired b.pending)

theorem firstPending_shift : (t.shift k).firstPending = t.firstPending.map (· + k) := by
  obtain ⟨m, b⟩ := t
  cases b with
  | none => rfl
  | some b => exact b.shift_firstPending k

end Track

theorem min?_map_add (k : Nat) (l : List Nat) : (l.map (· + k)).min? = l.min?.map (· + k) := by
  induction l with
  | nil => rfl
  | cons x l ih =>
      rw [List.map_cons, List.min?_cons, List.min?_cons, ih]
      cases l.min? with
      | none => rfl
      | some y => simp [Nat.add_min_add_right]

namespace Reconciler

variable (r : Reconciler) (f : RawFrame) (k : Nat)

abbrev shiftBoth (x : Reconciler × StepReport) : Reconciler × StepReport :=
  (x.1.shift k, x.2.shift k)

@[simp] theorem shift_new (s : ModelSet) : (new s).shift k = new s := by
  simp [shift, new, Table.map_map, Track.shift]

theorem belief?_shift (n : String) : (r.shift k).belief? n = (r.belief? n).map (·.shift k) := by
  rw [belief?, shift, Table.get?_map, belief?]
  cases r.tracks.get? n <;> rfl

theorem horizon_shift : (r.shift k).horizon = r.horizon.map (· + k) := by
  have hfirst : (r.shift k).tracks.values.filterMap Track.firstPending =
      (r.tracks.values.filterMap Track.firstPending).map (· + k) := by
    simp [shift, Table.values, Table.map, List.filterMap_map, List.map_filterMap,
      Function.comp_def, Track.firstPending_shift]
  rw [horizon, hfirst, min?_map_add, horizon]

theorem unknownField?_shift : (r.shift k).unknownField? (f.shift k) = r.unknownField? f := by
  have hknown (n : String) : (r.shift k).tracks.contains n = r.tracks.contains n := by
    simp [shift, Table.contains, Table.get?_map]
  have hkeys : (f.shift k).readings.keys = f.readings.keys := rfl
  simp only [unknownField?, hknown, hkeys]

theorem check_shift :
    (r.shift k).check (f.shift k) = (r.check f).mapError (·.shift k) := by
  have hlast : (r.shift k).lastFrame = r.lastFrame.map (· + k) := rfl
  have hframe : (f.shift k).frame = f.frame + k := rfl
  have hle (p : Nat) : f.frame + k ≤ p + k ↔ f.frame ≤ p := by omega
  simp only [check, unknownField?_shift, hlast, hframe]
  cases r.lastFrame with
  | none => cases r.unknownField? f <;> rfl
  | some p =>
      simp only [Option.map_some, hle]
      split
      · rfl
      · cases r.unknownField? f <;> rfl

theorem observation_shift (n : String) :
    (r.shift k).observation (f.shift k) n = (r.observation f n).shift k := rfl

theorem stepTracks_shift : (r.shift k).stepTracks (f.shift k) =
    (r.stepTracks f).map fun _ x => (x.1.shift k, x.2.shift k) := by
  have htracks : (r.shift k).tracks = r.tracks.map fun _ t => t.shift k := rfl
  simp only [stepTracks, htracks, Table.map_map, observation_shift, Track.step_shift]

theorem step_shift : (r.shift k).step (f.shift k) =
    ((r.step f).map (shiftBoth k)).mapError (·.shift k) := by
  simp only [step, check_shift, stepTracks_shift, Table.map_map]
  cases r.check f with
  | error e => rfl
  | ok _ =>
      simp [bind, Except.bind, pure, Except.pure, Except.map, Except.mapError, shift, advance,
        Table.map_map, StepReport.shift, RawFrame.shift]

theorem skip_shift : (r.shift k).skip (f.shift k) =
    ((r.skip f).map (·.shift k)).mapError (·.shift k) := by
  simp only [skip, check_shift]
  cases r.check f <;> rfl

theorem expireAll_shift : (r.shift k).expireAll =
    (r.expireAll.1.shift k, r.expireAll.2.map fun e => (e.1, e.2.shift k)) := by
  simp [expireAll, Track.clear_shift, shift, Table.map, List.flatMap_map, List.map_flatMap,
    Function.comp_def]

theorem perform_shift (op : Operation) :
    (r.shift k).perform (op.shift k) = (r.perform op).shift k := by
  cases op with
  | step f =>
      rw [Operation.shift, perform, perform, step_shift]
      cases r.step f <;> rfl
  | skip f =>
      rw [Operation.shift, perform, perform, skip_shift]
      cases r.skip f <;> rfl
  | expireAll => exact congrArg Prod.fst (r.expireAll_shift k)

theorem performAll_shift (ops : List Operation) :
    (r.shift k).performAll (ops.map (·.shift k)) = (r.performAll ops).shift k := by
  induction ops generalizing r with
  | nil => rfl
  | cons op ops ih =>
      rw [List.map_cons, performAll, List.foldl_cons, perform_shift]
      exact ih (r.perform op)

end Reconciler

end GameTimeline
