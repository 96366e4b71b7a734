import GameTimeline.Proofs.Field.Verdict
import GameTimeline.Proofs.Reconcile.Majority
import GameTimeline.Reconcile.Track

namespace GameTimeline

namespace FieldModel

def isClear (m : FieldModel) (confidence : Option Float32) : Bool :=
  match m.minConfidence, confidence with
  | some least, some c => c.isFinite && !(c < least)
  | _, _ => true

def shown (m : FieldModel) (reading : Reading) (confidence : Option Float32) : Option FieldValue :=
  if m.isClear confidence then reading.bind m.normalize else none

theorem shown_eq_some_iff {m : FieldModel} {reading : Reading} {confidence : Option Float32}
    {c : FieldValue} : m.shown reading confidence = some c ↔
      m.isClear confidence = true ∧ ∃ raw, reading = some raw ∧ m.normalize raw = some c := by
  rw [shown]
  split
  · simp [Option.bind_eq_some_iff, *]
  · simp [*]

theorem member_of_shown {m : FieldModel} {reading : Reading} {confidence : Option Float32}
    {c : FieldValue} (h : m.shown reading confidence = some c) : m.domain.Member c := by
  obtain ⟨-, raw, -, hn⟩ := shown_eq_some_iff.mp h
  exact Domain.member_of_normalize hn

end FieldModel

namespace Track

variable {m : FieldModel} {o : Observation} {b b' : Belief} {st : FieldStep}

theorem isFaint_eq (m : FieldModel) (o : Observation) : isFaint m o = !m.isClear o.confidence := by
  unfold isFaint FieldModel.isClear
  cases m.minConfidence <;> cases o.confidence <;> simp

def current (t : Track) : Belief := t.belief.getD .empty

def staleDiscards (t : Track) (o : Observation) : List Discard :=
  (t.current.stale t.model.window o.seq).map (.ofPending .suspectExpired)

inductive Meets (m : FieldModel) (o : Observation) (b : Belief) : Belief → FieldStep → Prop
  | absent : o.reading = none → Meets m o b b (.held (some b) .absent [])
  | faint {raw : FieldValue} : o.reading = some raw → m.isClear o.confidence = false →
      Meets m o b b (.held (some b) .lowConfidence [⟨o.frame, raw, .lowConfidence⟩])
  | stray {raw : FieldValue} : o.reading = some raw → m.isClear o.confidence = true →
      m.normalize raw = none → Meets m o b (rejected o b raw).1 (rejected o b raw).2
  | refused {c : FieldValue} : m.shown o.reading o.confidence = some c →
      m.classify b.value c (b.elapsed o.frame) = .reject →
      Meets m o b (rejected o b c).1 (rejected o b c).2
  | accepted {c : FieldValue} : m.shown o.reading o.confidence = some c →
      m.classify b.value c (b.elapsed o.frame) = .accept →
      Meets m o b (acceptCandidate m o b c).1 (acceptCandidate m o b c).2
  | suspected {c : FieldValue} : m.shown o.reading o.confidence = some c →
      m.classify b.value c (b.elapsed o.frame) = .suspect →
      Meets m o b (suspectCandidate m o b c).1 (suspectCandidate m o b c).2

theorem meets_weigh {raw : FieldValue} (hr : o.reading = some raw)
    (hc : m.isClear o.confidence = true) : Meets m o b (weigh m o b raw).1 (weigh m o b raw).2 := by
  rw [weigh]
  cases hn : m.normalize raw with
  | none => exact .stray hr hc hn
  | some c =>
      have hs : m.shown o.reading o.confidence = some c :=
        FieldModel.shown_eq_some_iff.mpr ⟨hc, raw, hr, hn⟩
      cases hv : m.classify b.value c (b.elapsed o.frame) with
      | accept => simpa [hv] using Meets.accepted hs hv
      | reject => simpa [hv] using Meets.refused hs hv
      | suspect => simpa [hv] using Meets.suspected hs hv

theorem meets_meet (m : FieldModel) (o : Observation) (b? : Option Belief) :
    Meets m o (b?.getD .empty) ((meet m o b?).1.getD .empty) (meet m o b?).2 := by
  have held_eq (outcome : Outcome) (ds : List Discard) :
      FieldStep.held b? outcome ds = .held (some (b?.getD .empty)) outcome ds := by
    cases b? <;> rfl
  rw [meet]
  cases hr : o.reading with
  | none =>
      simp only [held_eq]
      exact .absent hr
  | some raw =>
      rw [isFaint_eq]
      cases hc : m.isClear o.confidence with
      | false =>
          simp only [Bool.not_false, if_true, held_eq]
          exact .faint hr hc
      | true => exact meets_weigh hr hc

theorem step_meets (t : Track) (o : Observation) :
    ∃ st, Meets t.model o (t.current.expire t.model.window o.seq) (t.step o).1.current st ∧
      (t.step o).2 = { st with discarded := t.staleDiscards o ++ st.discarded } := by
  obtain ⟨m, b?⟩ := t
  refine ⟨(meet m o (b?.map (·.expire m.window o.seq))).2, ?_, ?_⟩
  · have h := meets_meet m o (b?.map (·.expire m.window o.seq))
    cases b? <;> exact h
  · cases b? <;> rfl

end Track

end GameTimeline
