import GameTimeline.Proofs.Reconcile.Determinism
import GameTimeline.Proofs.Timeline.Steady

namespace GameTimeline

theorem FieldModel.isClear_none (m : FieldModel) : m.isClear none = true := by
  unfold isClear
  cases m.minConfidence <;> rfl

namespace Track

variable {m : FieldModel} {past past' : List (Observation × FieldStep)} {t t' : Track}
  {o o' : Observation} {e e' : Observation × FieldStep}

structure Echo (e' e : Observation × FieldStep) : Prop where
  frame : e'.1.frame = e.1.frame
  reading : e'.1.reading = e.2.value
  confidence : e'.1.confidence = none

structure Repeats (e' e : Observation × FieldStep) : Prop where
  value : e'.2.value = e.2.value
  outcome : e'.2.outcome = if e.2.value.isSome then .accepted else .absent
  revision : e'.2.revision = none
  discarded : e'.2.discarded = []

structure Trusts (past : List (Observation × FieldStep)) (b : Belief) : Prop where
  accepted : b.accepted = past.head?.bind fun e => e.2.value.map (·, e.1.frame)
  pending : b.pending = []

theorem Run.value_head (hm : m.validate = .ok ()) (h : Run m past t) :
    t.current.value = past.head?.bind (·.2.value) := by
  cases h with
  | start => rfl
  | step hrun hseq _ _ => exact ((hrun.explained hm).step_value hm hseq).symm

theorem Run.value_of_step_none (hm : m.validate = .ok ()) (h : Run m past t)
    (hseq : o.seq = past.length + 1) (hnone : (t.step o).2.value = none) :
    t.current.value = none := by
  have hmoves := (h.explained hm).moves hm hseq
  rcases hmoves.held_or_taken with ⟨-, -, hvalue, -⟩ | ⟨c, -, -, hvalue, -⟩
  · exact hvalue.symm.trans hnone
  · cases hvalue.symm.trans hnone

theorem Steady.near_head {st : FieldStep} (hsteady : Steady m (column ((o, st) :: e :: past)))
    (hnone : st.revision = none) : m.Near e.2.value st.value (o.frame - e.1.frame) := by
  rw [column, finals_of_none hnone] at hsteady
  exact (List.isChain_cons_cons.mp hsteady).1

theorem Steady.older {st : FieldStep} (hsteady : Steady m (column ((o, st) :: past)))
    (hnone : st.revision = none) : Steady m (column past) := by
  rw [column, finals_of_none hnone] at hsteady
  exact List.IsChain.tail hsteady

theorem Trusts.accepts {b : Belief} (h : Trusts past b) (hm : m.validate = .ok ())
    (hrun : Run m past t) (hseq : o.seq = past.length + 1)
    (hsteady : Steady m (column ((o, (t.step o).2) :: past)))
    (hnone : (t.step o).2.revision = none) {v : FieldValue} (hv : (t.step o).2.value = some v)
    (hmem : m.domain.Member v) : m.classify b.value v (b.elapsed o.frame) = .accept := by
  have hn : m.normalize v = some v := hmem
  have hfresh (hb : b.accepted = none) : m.classify b.value v (b.elapsed o.frame) = .accept := by
    have hvalue : b.value = none := by rw [Belief.value, hb]; rfl
    simp [FieldModel.classify, hvalue, hn]
  have hacc := h.accepted
  cases past with
  | nil => exact hfresh hacc
  | cons e past =>
      cases hu : e.2.value with
      | none =>
          rw [List.head?_cons, Option.bind_some, hu] at hacc
          exact hfresh hacc
      | some u =>
          rw [List.head?_cons, Option.bind_some, hu] at hacc
          have hex := hrun.explained hm
          have hcurrent : t.current.value = some u := by
            rw [hrun.value_head hm]
            exact hu
          have hvalue : b.value = some u := by rw [Belief.value, hacc]; rfl
          have hnear := hsteady.near_head hnone
          rw [hu, hv] at hnear
          rw [hvalue, elapsed_eq hacc]
          refine FieldModel.classify_eq_accept_of_near hm hmem (fun bound hbound => ?_) hnear
          obtain ⟨c, hc, hle⟩ := hex.rises hm hseq hbound hcurrent
          obtain rfl := Option.some.inj (hv.symm.trans ((hex.step_value hm hseq).trans hc))
          exact hle

theorem Resolves.of_silent {b b' : Belief} {st : FieldStep} (h : Resolves m o b b' st)
    (hr : o.reading = none) : b' = b ∧ st = .held (some b) .absent [] := by
  have unseen {c : FieldValue} (hs : m.shown o.reading o.confidence = some c) : False := by
    obtain ⟨-, raw, hraw, -⟩ := FieldModel.shown_eq_some_iff.mp hs
    cases hr.symm.trans hraw
  cases h with
  | absent _ => exact ⟨rfl, rfl⟩
  | faint hraw _ => cases hr.symm.trans hraw
  | stray hraw _ _ => cases hr.symm.trans hraw
  | refused hs _ => cases unseen hs
  | joined hs _ => cases unseen hs
  | accepted hs _ => cases unseen hs
  | confirmed hs _ => cases unseen hs

theorem Resolves.of_accept {b b' : Belief} {st : FieldStep} (h : Resolves m o b b' st)
    {v : FieldValue} (hv : m.shown o.reading o.confidence = some v)
    (haccept : m.classify b.value v (b.elapsed o.frame) = .accept) :
    b' = .accept v o.frame ∧ st = ⟨some v, .accepted, m.isTerminal v,
      Revision.upTo? o.previousFrame (agreeing b.pending v) v, superseded b.pending v⟩ := by
  obtain ⟨hclear, raw, hraw, hn⟩ := FieldModel.shown_eq_some_iff.mp hv
  have other {c : FieldValue} {verdict : Verdict} (hs : m.shown o.reading o.confidence = some c)
      (hc : m.classify b.value c (b.elapsed o.frame) = verdict) : verdict = .accept := by
    obtain rfl := Option.some.inj (hv.symm.trans hs)
    exact hc.symm.trans haccept
  cases h with
  | accepted hs _ =>
      obtain rfl := Option.some.inj (hv.symm.trans hs)
      exact ⟨rfl, rfl⟩
  | absent hr => cases hraw.symm.trans hr
  | faint _ hf => cases hclear.symm.trans hf
  | stray hr _ hstray =>
      obtain rfl := Option.some.inj (hraw.symm.trans hr)
      cases hn.symm.trans hstray
  | refused hs hc => cases other hs hc
  | joined hs hc => cases other hs hc
  | confirmed hs hc => cases other hs hc

theorem Run.resolves_settled (hm : m.validate = .ok ()) (h : Run m past t)
    (hseq : o.seq = past.length + 1) (hsettled : t.current.pending = []) :
    Resolves m o t.current (t.step o).1.current (t.step o).2 := by
  obtain ⟨st, hresolves, hst⟩ := h.resolves hm hseq
  have hexpire : t.current.expire m.window o.seq = t.current := by
    rw [Belief.expire, hsettled, List.dropWhile_nil, ← hsettled]
  have hstale : t.staleDiscards o = [] := by
    rw [staleDiscards, Belief.stale, hsettled]
    rfl
  rw [hexpire] at hresolves
  rw [hst, hstale, List.nil_append]
  exact hresolves

theorem Run.repeats (hm : m.validate = .ok ()) (h : Run m past t) (h' : Run m past' t')
    (hseq : o.seq = past.length + 1) (hseq' : o'.seq = past'.length + 1)
    (hsteady : Steady m (column ((o, (t.step o).2) :: past)))
    (hnone : (t.step o).2.revision = none) (htrusts : Trusts past t'.current)
    (hecho : Echo (o', (t'.step o').2) (o, (t.step o).2)) :
    Repeats (o', (t'.step o').2) (o, (t.step o).2) ∧
      Trusts ((o, (t.step o).2) :: past) (t'.step o').1.current := by
  have hex := h.explained hm
  have hresolves := h'.resolves_settled hm hseq' htrusts.pending
  have hframe : o'.frame = o.frame := hecho.frame
  have hreading : o'.reading = (t.step o).2.value := hecho.reading
  have hconfidence : o'.confidence = none := hecho.confidence
  cases hv : (t.step o).2.value with
  | none =>
      have hsilent : t'.current.accepted = none := by
        rw [htrusts.accepted]
        have hcurrent := h.value_of_step_none hm hseq hv
        rw [h.value_head hm] at hcurrent
        cases past with
        | nil => rfl
        | cons e past => simpa using hcurrent
      obtain ⟨hnew, hst⟩ := hresolves.of_silent (hreading.trans hv)
      rw [hnew, hst]
      refine ⟨⟨?_, by simp [hv, FieldStep.held], rfl, rfl⟩, ⟨?_, htrusts.pending⟩⟩
      · rw [hv]
        simp [FieldStep.held, Belief.value, hsilent]
      · rw [hsilent]
        simp [hv]
  | some v =>
      have hmem : m.domain.Member v := by
        refine (hex.step hm hseq).member_value ?_
        rw [← hex.step_value hm hseq]
        exact hv
      have haccept := htrusts.accepts hm h hseq hsteady hnone hv hmem
      rw [← hframe] at haccept
      have hclear : m.isClear o'.confidence = true := by rw [hconfidence, m.isClear_none]
      have hshown : m.shown o'.reading o'.confidence = some v :=
        FieldModel.shown_eq_some_iff.mpr ⟨hclear, v, hreading.trans hv, hmem⟩
      obtain ⟨hnew, hst⟩ := hresolves.of_accept hshown haccept
      rw [hnew, hst]
      -- nothing waits, so that there is nothing to revise and nothing to discard
      refine ⟨⟨hv.symm, by simp [hv], ?_, ?_⟩, ⟨?_, rfl⟩⟩
      · simp [agreeing, htrusts.pending, Revision.upTo?]
      · simp [superseded, htrusts.pending]
      · simp [Belief.accept, hv, hframe]

theorem Run.echoes (hm : m.validate = .ok ()) (h : Run m past t) (h' : Run m past' t')
    (hsteady : Steady m (column past)) (hecho : List.Forall₂ Echo past' past) :
    List.Forall₂ Repeats past' past ∧ Trusts past t'.current := by
  induction h generalizing past' t' with
  | start =>
      cases hecho
      cases h' with
      | start => exact ⟨.nil, rfl, rfl⟩
  | @step past t o hrun hseq hprev hhead ih =>
      cases hecho with
      | @cons e' _ past' _ he hecho =>
          obtain ⟨t₀, hrun', hseq', -, -, hst, rfl⟩ := h'.of_cons
          have hnone := hrun.revision_eq_none hm hseq hprev hhead hsteady
          obtain ⟨hrepeats, htrusts⟩ := ih hrun' (hsteady.older hnone) hecho
          obtain ⟨o', st'⟩ := e'
          obtain rfl : (t₀.step o').2 = st' := hst
          obtain ⟨hone, htrusts'⟩ := hrun.repeats hm hrun' hseq hseq' hsteady hnone htrusts he
          exact ⟨.cons hone hrepeats, htrusts'⟩

end Track

end GameTimeline
