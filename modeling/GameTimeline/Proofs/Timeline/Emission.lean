import GameTimeline.Proofs.Timeline.Phase

namespace GameTimeline

namespace TimelineBuilder

def pushes (b : TimelineBuilder) :
    List RawFrame → Except BuildError (TimelineBuilder × List (List CorrectedState))
  | [] => .ok (b, [])
  | f :: rest =>
      match b.push f with
      | (b', .ok states) => (b'.pushes rest).map fun x => (x.1, states :: x.2)
      | (_, .error e) => .error e

variable {s : ModelSet} {past : List (RawFrame × StepReport)} {b b' b'' : TimelineBuilder}
  {f : RawFrame} {frames : List RawFrame} {states : List CorrectedState}
  {returned : List (List CorrectedState)} {values : Table Reading}

theorem pushAll_eq (b : TimelineBuilder) (frames : List RawFrame) :
    b.pushAll frames = (b.pushes frames).map (·.1) := by
  induction frames generalizing b with
  | nil => rfl
  | cons f rest ih =>
      rw [pushAll, pushes]
      obtain ⟨b', result⟩ := b.push f
      cases result with
      | error e => rfl
      | ok states =>
          simp only [ih b']
          cases b'.pushes rest <;> rfl

theorem pushAll_append (b : TimelineBuilder) (xs ys : List RawFrame) :
    b.pushAll (xs ++ ys) = b.pushAll xs >>= (·.pushAll ys) := by
  induction xs generalizing b with
  | nil => rfl
  | cons x xs ih =>
      rw [List.cons_append, pushAll, pushAll]
      split
      · exact ih _
      · rfl

theorem pushes_cons (h : b.pushes (f :: frames) = .ok (b'', returned)) :
    ∃ b' states later, b.push f = (b', .ok states) ∧ b'.pushes frames = .ok (b'', later) ∧
      returned = states :: later := by
  rw [pushes] at h
  split at h
  · rename_i b' states hpush
    cases hrest : b'.pushes frames with
    | error e =>
        rw [hrest] at h
        cases h
    | ok x =>
        rw [hrest] at h
        cases h
        exact ⟨b', states, x.2, hpush, hrest, rfl⟩
  · cases h

theorem pushNext_of_push (hs : b.poisoned = false) (h : b.push f = (b', .ok states)) :
    b.pushNext f = .ok (b', states) := by
  rw [push, hs, if_neg (by decide)] at h
  split at h
  · rename_i hnext
    cases h
    exact hnext
  · cases h

theorem pushActive_eq_ok (h : b.pushActive f = .ok (b', states)) :
    ∃ r' report, b.reconciler.step f = .ok (r', report) ∧
      ({ b with reconciler := r' }.takeReport report).settle report = (b', states) := by
  rw [pushActive] at h
  cases hstep : b.reconciler.step f with
  | error e =>
      rw [hstep] at h
      cases h
  | ok x =>
      rw [hstep] at h
      exact ⟨x.1, x.2, rfl, Except.ok.inj h⟩

structure Emits (b b' : TimelineBuilder) (returned : List (List CorrectedState))
    (out : List CorrectedState) : Prop where
  sound : b'.poisoned = false
  emitted : b'.emitted = out
  returned : b'.closed.toList = b.closed.toList ++ returned.flatten
  ordered : out.Pairwise (·.frame < ·.frame)

theorem Emits.cons {out : List CorrectedState} (h : Emits b' b'' returned out)
    (hclosed : b'.closed.toList = b.closed.toList ++ states) :
    Emits b b'' (states :: returned) out where
  sound := h.sound
  emitted := h.emitted
  returned := by rw [h.returned, hclosed, List.flatten_cons, List.append_assoc]
  ordered := h.ordered

theorem Ended.pushes (h : Ended values b) (hp : b.pushes frames = .ok (b', returned)) :
    Emits b b' returned (b.closed.toList ++ frames.map (replay · values)) := by
  induction frames generalizing b returned with
  | nil =>
      cases hp
      refine ⟨h.sound, ?_, (List.append_nil _).symm, ?_⟩
      · rw [emitted, h.nothing_open]
        rfl
      · simpa using h.ordered
  | cons f rest ih =>
      obtain ⟨b₁, states, later, hpush, hrest, rfl⟩ := pushes_cons hp
      have hnext := pushNext_of_push h.sound hpush
      obtain ⟨frame, field, hsession⟩ := h.session
      rw [pushNext, hsession] at hnext
      obtain ⟨h₁, rfl, hclosed⟩ := h.replayed hnext
      have hlater := (ih h₁ hrest).cons hclosed
      rw [hclosed, List.append_assoc] at hlater
      exact hlater

theorem Follows.push (h : Follows s past b) (hpush : b.push f = (b', .ok states)) :
    ∃ r' report, b.reconciler.step f = .ok (r', report) ∧
      b'.closed.toList = b.closed.toList ++ states ∧
      (report.terminal = [] ∧ b'.reconciler = r' ∧ Follows s ((f, report) :: past) b' ∨
        report.terminal ≠ [] ∧ Ended report.record.fields b' ∧
          b'.closed.toList = StepReport.records (((f, report) :: past).map (·.2)).reverse) := by
  have hnext := pushNext_of_push h.sound hpush
  rw [pushNext, h.session] at hnext
  obtain ⟨r', report, hstep, hsettle⟩ := pushActive_eq_ok hnext
  have htake := h.take hstep
  have hkept := takeReport_closed { b with reconciler := r' } report
  have hrec := takeReport_reconciler { b with reconciler := r' } report
  generalize { b with reconciler := r' }.takeReport report = taken at hsettle htake hkept hrec
  refine ⟨r', report, hstep, ?_⟩
  rw [settle] at hsettle
  cases hterminal : report.terminal with
  | nil =>
      simp only [hterminal] at hsettle
      obtain ⟨hfollows, hclosed⟩ := htake.closeFinal
      have hsame := closeFinal_reconciler taken
      rw [hsettle] at hfollows hclosed hsame
      rw [hkept] at hclosed
      exact ⟨hclosed, .inl ⟨rfl, hsame.trans hrec, hfollows⟩⟩
  | cons field fields =>
      simp only [hterminal] at hsettle
      have hended := htake.ended report field
      have hclosed := htake.freeze_closed report field
      rw [hsettle] at hended hclosed
      have hstates : states = taken.openStates := (Prod.mk.inj hsettle).2.symm
      refine ⟨?_, .inr ⟨by simp, hended, hclosed.trans htake.emitted⟩⟩
      rw [hclosed, TimelineBuilder.emitted, hkept, hstates]

theorem Follows.pushes (h : Follows s past b) (hp : b.pushes frames = .ok (b', returned)) :
    ∃ reports rest, b.reconciler.reports frames = .ok (reports, rest) ∧
      Emits b b' returned (StepReport.records ((past.map (·.2)).reverse ++ reports) ++
        rest.map (replay · (StepReport.lastFields ((past.map (·.2)).reverse ++ reports)))) := by
  induction frames generalizing past b returned with
  | nil =>
      cases hp
      refine ⟨[], [], rfl, h.sound, ?_, (List.append_nil _).symm, ?_⟩
      · simpa using h.emitted
      · simpa using h.run.records_ordered
  | cons f rest ih =>
      obtain ⟨b₁, states, later, hpush, hrest, rfl⟩ := pushes_cons hp
      obtain ⟨r', report, hstep, hclosed, hphase⟩ := h.push hpush
      have hnew (reports : List StepReport) : (past.map (·.2)).reverse ++ report :: reports =
          (((f, report) :: past).map (·.2)).reverse ++ reports := by
        simp
      rcases hphase with ⟨hterminal, rfl, hfollows⟩ | ⟨hterminal, hended, hall⟩
      · obtain ⟨reports, after, hreports, hemits⟩ := ih hfollows hrest
        refine ⟨report :: reports, after, ?_, ?_⟩
        · rw [Reconciler.reports_of_active hstep hterminal, hreports]
          rfl
        · rw [hnew]
          exact hemits.cons hclosed
      · refine ⟨[report], rest, Reconciler.reports_of_terminal hstep hterminal rest, ?_⟩
        have hemits := hended.pushes hrest
        rw [hall] at hemits
        rw [StepReport.lastFields_concat, hnew, List.append_nil]
        exact hemits.cons hclosed

theorem finish_of_sound (h : b.poisoned = false) (hord : b.emitted.Pairwise (·.frame < ·.frame)) :
    ∃ t quality, b.finish = .ok (t, quality) ∧ t.toList = b.emitted := by
  have hclosed : (b.expireAll.closeAll).1.closed.toList = b.emitted :=
    close_closed (b := b.expireAll) (List.append_nil _).symm hord
  rw [finish, h, if_neg (by decide)]
  exact ⟨_, _, rfl, hclosed⟩

end TimelineBuilder

theorem TimelineBuilder.pushes_reports {s : ModelSet} {frames : List RawFrame}
    {b : TimelineBuilder} {returned : List (List CorrectedState)}
    (h : (TimelineBuilder.new s).pushes frames = .ok (b, returned)) :
    ∃ reports rest, (Reconciler.new s).reports frames = .ok (reports, rest) ∧
      Emits (.new s) b returned (StepReport.records reports ++
        rest.map (replay · (StepReport.lastFields reports))) ∧
      ∃ t quality, b.finish = .ok (t, quality) ∧ t.toList = b.emitted := by
  obtain ⟨reports, rest, hreports, hemits⟩ := (Follows.start s).pushes h
  have hord : b.emitted.Pairwise (·.frame < ·.frame) := hemits.emitted ▸ hemits.ordered
  exact ⟨reports, rest, hreports, hemits, finish_of_sound hemits.sound hord⟩

theorem assemble_reports {s : ModelSet} {frames : List RawFrame} {t : Timeline}
    {quality : QualityReport} (h : assemble s frames = .ok (t, quality)) :
    ∃ reports rest, (Reconciler.new s).reports frames = .ok (reports, rest) ∧
      t.toList = StepReport.records reports ++
        rest.map (TimelineBuilder.replay · (StepReport.lastFields reports)) := by
  rw [assemble, TimelineBuilder.pushAll_eq] at h
  cases hpushes : (TimelineBuilder.new s).pushes frames with
  | error e =>
      rw [hpushes] at h
      cases h
  | ok x =>
      rw [hpushes] at h
      obtain ⟨reports, rest, hreports, hemits, t', quality', hfinish, ht'⟩ :=
        TimelineBuilder.pushes_reports hpushes
      have hfinal : x.1.finish = .ok (t, quality) := h
      cases hfinish.symm.trans hfinal
      exact ⟨reports, rest, hreports, ht'.trans hemits.emitted⟩

end GameTimeline
