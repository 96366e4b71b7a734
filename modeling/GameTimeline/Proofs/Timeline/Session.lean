import GameTimeline.Proofs.Timeline.Emission

namespace GameTimeline

namespace QualityReport

theorem foldl_frozenAt {α : Type} {f : QualityReport → α → QualityReport}
    (hf : ∀ q a, (f q a).frozenAt = q.frozenAt) (l : List α) (q : QualityReport) :
    (l.foldl f q).frozenAt = q.frozenAt := by
  induction l generalizing q with
  | nil => rfl
  | cons a l ih => exact (ih (f q a)).trans (hf q a)

theorem addSteps_frozenAt (q : QualityReport) (r : StepReport) :
    (q.addSteps r).frozenAt = q.frozenAt := by
  rw [addSteps]
  exact foldl_frozenAt (by intros; rfl) _ q

theorem addDiscards_frozenAt (q : QualityReport) (ds : List (String × Discard)) :
    (q.addDiscards ds).frozenAt = q.frozenAt := by
  rw [addDiscards]
  exact foldl_frozenAt (by intros; rfl) ds q

theorem addIgnored_frozenAt (q : QualityReport) (f : RawFrame) :
    (q.addIgnored f).frozenAt = q.frozenAt := by
  rw [addIgnored]
  exact foldl_frozenAt (by intros; rfl) _ q

end QualityReport

namespace TimelineBuilder

variable {s : ModelSet} {past : List (RawFrame × StepReport)} {rest frames : List RawFrame}
  {b b' : TimelineBuilder} {r' : Reconciler} {f : RawFrame} {report : StepReport}
  {states : List CorrectedState} {values : Table Reading}

theorem foldl_applyRevision_frozenAt (es : List (String × Revision)) (b : TimelineBuilder) :
    (es.foldl applyRevision b).quality.frozenAt = b.quality.frozenAt := by
  induction es generalizing b with
  | nil => rfl
  | cons e es ih => exact ih (b.applyRevision e)

theorem takeReport_frozenAt (b : TimelineBuilder) (r : StepReport) :
    (b.takeReport r).quality.frozenAt = b.quality.frozenAt :=
  (QualityReport.addSteps_frozenAt _ r).trans
    ((QualityReport.addDiscards_frozenAt _ r.discarded).trans
      (foldl_applyRevision_frozenAt r.revisions _))

theorem closeFinal_frozenAt (b : TimelineBuilder) :
    b.closeFinal.1.quality.frozenAt = b.quality.frozenAt := by
  rw [closeFinal]
  split <;> rfl

theorem freeze_frozenAt (b : TimelineBuilder) (r : StepReport) (field : String) :
    ((b.freeze r field).expireAll.closeAll).1.quality.frozenAt = some r.frame :=
  QualityReport.addDiscards_frozenAt (b.freeze r field).quality _

theorem pushFrozen_frozenAt (h : b.pushFrozen f values = .ok (b', states)) :
    b'.quality.frozenAt = b.quality.frozenAt := by
  rw [pushFrozen, Reconciler.skip] at h
  cases hcheck : b.reconciler.check f with
  | error e =>
      rw [hcheck] at h
      cases h
  | ok _ =>
      rw [hcheck] at h
      cases h
      exact QualityReport.addIgnored_frozenAt b.quality.addFrame f

theorem closeFinal_open (hord : b.openStates.Pairwise (·.frame < ·.frame)) :
    ∀ x ∈ b.closeFinal.1.openStates, ∃ h, b.closeFinal.1.reconciler.horizon = some h ∧
      h ≤ x.frame := by
  intro x hx
  rw [closeFinal_reconciler]
  rw [closeFinal] at hx
  cases hh : b.reconciler.horizon with
  | none =>
      rw [hh] at hx
      cases hx
  | some h =>
      rw [hh] at hx
      exact ⟨h, rfl, le_of_mem_dropWhile hord hx⟩

theorem sound_of_push (h : b.push f = (b', .ok states)) : b.poisoned = false := by
  rw [push] at h
  split at h
  · cases h
  · exact Bool.eq_false_iff.mpr ‹_›

structure Playing (s : ModelSet) (past : List (RawFrame × StepReport)) (b : TimelineBuilder) :
    Prop extends Follows s past b where
  unfrozen : b.quality.frozenAt = none
  reachable : ∀ x ∈ b.openStates, ∃ h, b.reconciler.horizon = some h ∧ h ≤ x.frame

structure Over (s : ModelSet) (past : List (RawFrame × StepReport)) (rest : List RawFrame)
    (b : TimelineBuilder) : Prop where
  ended : Ended (StepReport.lastFields (past.map (·.2)).reverse) b
  run : ∃ r, Reconciler.Run s past r
  nonempty : past ≠ []
  frozenAt : b.quality.frozenAt = past.head?.map (·.1.frame)
  closed : b.closed.toList = StepReport.records (past.map (·.2)).reverse ++
    rest.map (replay · (StepReport.lastFields (past.map (·.2)).reverse))

theorem Playing.push (h : Playing s past b) (hstep : b.reconciler.step f = .ok (r', report))
    (hpush : b.push f = (b', .ok states)) :
    Playing s ((f, report) :: past) b' ∨ Over s ((f, report) :: past) [] b' := by
  have hnext := pushNext_of_push h.sound hpush
  rw [pushNext, h.session] at hnext
  obtain ⟨r₁, report₁, hstep₁, hsettle⟩ := pushActive_eq_ok hnext
  cases hstep.symm.trans hstep₁
  have htake := h.take hstep
  have hfrozen := takeReport_frozenAt { b with reconciler := r' } report
  generalize { b with reconciler := r' }.takeReport report = taken at hsettle htake hfrozen
  rw [settle] at hsettle
  cases hterminal : report.terminal with
  | nil =>
      simp only [hterminal] at hsettle
      obtain ⟨hfollows, -⟩ := htake.closeFinal
      have hopen := closeFinal_open (List.pairwise_append.mp htake.ordered).2.1
      have hsame := closeFinal_frozenAt taken
      rw [hsettle] at hfollows hopen hsame
      exact .inl ⟨hfollows, hsame.trans (hfrozen.trans h.unfrozen), hopen⟩
  | cons field fields =>
      simp only [hterminal] at hsettle
      have hended := htake.ended report field
      have hclosed := htake.freeze_closed report field
      have hat := freeze_frozenAt taken report field
      rw [hsettle] at hended hclosed hat
      have hlast : StepReport.lastFields (((f, report) :: past).map (·.2)).reverse =
          report.record.fields := by
        rw [List.map_cons, List.reverse_cons, StepReport.lastFields_concat]
      refine .inr ⟨hlast ▸ hended, ⟨r', h.run.step hstep⟩, by simp, ?_, ?_⟩
      · rw [hat, (Reconciler.stepped_of_step hstep).frame]
        rfl
      · rw [hclosed, htake.emitted]
        exact (List.append_nil _).symm

theorem Over.push (h : Over s past rest b) (hpush : b.push f = (b', .ok states)) :
    Over s past (rest ++ [f]) b' := by
  have hnext := pushNext_of_push h.ended.sound hpush
  obtain ⟨frame, field, hsession⟩ := h.ended.session
  rw [pushNext, hsession] at hnext
  obtain ⟨hended, -, hclosed⟩ := h.ended.replayed hnext
  refine ⟨hended, h.run, h.nonempty, (pushFrozen_frozenAt hnext).trans h.frozenAt, ?_⟩
  rw [hclosed, h.closed, List.map_append, List.append_assoc]
  rfl

/-- The pushes of a builder: the frames of the game with the reports of their steps, the latest
first, and the frames after the game. A push that fails poisons the builder. -/
inductive Run (s : ModelSet) :
    List (RawFrame × StepReport) → List RawFrame → TimelineBuilder → Prop
  | start : Run s [] [] (.new s)
  | played {past : List (RawFrame × StepReport)} {rest : List RawFrame} {b b' : TimelineBuilder}
      {f : RawFrame} {r' : Reconciler} {report : StepReport} {states : List CorrectedState} :
      Run s past rest b → b.session = .active → b.reconciler.step f = .ok (r', report) →
      b.push f = (b', .ok states) → Run s ((f, report) :: past) rest b'
  | replayed {past : List (RawFrame × StepReport)} {rest : List RawFrame}
      {b b' : TimelineBuilder} {f : RawFrame} {states : List CorrectedState} :
      Run s past rest b → b.session.isFrozen = true → b.push f = (b', .ok states) →
      Run s past (rest ++ [f]) b'
  | refused {past : List (RawFrame × StepReport)} {rest : List RawFrame}
      {b b' : TimelineBuilder} {f : RawFrame} {e : BuildError} :
      Run s past rest b → b.push f = (b', .error e) → Run s past rest b'

def healed (b : TimelineBuilder) : TimelineBuilder := { b with poisoned := false }

theorem healed_of_sound (h : b.poisoned = false) : b.healed = b := by
  rw [healed, ← h]

theorem healed_of_refused {e : BuildError} (h : b.push f = (b', .error e)) :
    b'.healed = b.healed := by
  rw [push] at h
  split at h
  · cases h
    rfl
  · split at h
    · cases h
    · cases h
      rfl

theorem Run.phase (h : Run s past rest b) :
    rest = [] ∧ Playing s past b.healed ∨ Over s past rest b.healed := by
  induction h with
  | start => exact .inl ⟨rfl, .start s, rfl, fun _ hx => (nomatch hx)⟩
  | @played past rest b b' f r' report states _ hactive hstep hpush ih =>
      -- only a builder that is not poisoned takes a frame
      rw [healed_of_sound (sound_of_push hpush)] at ih
      rcases ih with ⟨rfl, hplaying⟩ | hover
      · rcases hplaying.push hstep hpush with hnext | hend
        · exact .inl ⟨rfl, (healed_of_sound hnext.sound).symm ▸ hnext⟩
        · exact .inr ((healed_of_sound hend.ended.sound).symm ▸ hend)
      · obtain ⟨_, _, hsession⟩ := hover.ended.session
        cases hactive.symm.trans hsession
  | @replayed past rest b b' f states _ hfrozen hpush ih =>
      rw [healed_of_sound (sound_of_push hpush)] at ih
      rcases ih with ⟨rfl, hplaying⟩ | hover
      · rw [hplaying.session] at hfrozen
        cases hfrozen
      · have hnext := hover.push hpush
        exact .inr ((healed_of_sound hnext.ended.sound).symm ▸ hnext)
  | refused _ hpush ih => exact (healed_of_refused hpush).symm ▸ ih

theorem Run.next (h : Run s past rest b) (hpush : b.push f = (b', .ok states)) :
    ∃ past' rest', Run s past' rest' b' ∧ b'.poisoned = false ∧
      (past'.map (·.1)).reverse ++ rest' = (past.map (·.1)).reverse ++ rest ++ [f] := by
  have hsound := sound_of_push hpush
  have hphase := h.phase
  rw [healed_of_sound hsound] at hphase
  rcases hphase with ⟨rfl, hplaying⟩ | hover
  · have hnext := pushNext_of_push hsound hpush
    rw [pushNext, hplaying.session] at hnext
    obtain ⟨r', report, hstep, -⟩ := pushActive_eq_ok hnext
    refine ⟨_, _, h.played hplaying.session hstep hpush, ?_, by simp⟩
    rcases hplaying.push hstep hpush with hlater | hend
    · exact hlater.sound
    · exact hend.ended.sound
  · obtain ⟨frame, field, hsession⟩ := hover.ended.session
    exact ⟨past, rest ++ [f], h.replayed (hsession ▸ rfl) hpush, (hover.push hpush).ended.sound,
      (List.append_assoc ..).symm⟩

theorem Run.push (h : Run s past rest b) (f : RawFrame) :
    ∃ past' rest', Run s past' rest' (b.push f).1 := by
  rcases hpush : b.push f with ⟨b', e | states⟩
  · exact ⟨past, rest, h.refused hpush⟩
  · obtain ⟨past', rest', hnext, -⟩ := h.next hpush
    exact ⟨past', rest', hnext⟩

theorem Run.pushes {returned : List (List CorrectedState)} (h : Run s past rest b)
    (hs : b.poisoned = false) (hp : b.pushes frames = .ok (b', returned)) :
    ∃ past' rest', Run s past' rest' b' ∧ b'.poisoned = false ∧
      (past'.map (·.1)).reverse ++ rest' = (past.map (·.1)).reverse ++ rest ++ frames := by
  induction frames generalizing past rest b returned with
  | nil =>
      cases hp
      exact ⟨past, rest, h, hs, (List.append_nil _).symm⟩
  | cons f frames ih =>
      obtain ⟨b₁, states, later, hpush, hlater, rfl⟩ := pushes_cons hp
      obtain ⟨past₁, rest₁, hnext, hsound, hframes⟩ := h.next hpush
      obtain ⟨past', rest', hrun, hsound', hall⟩ := ih hnext hsound hlater
      exact ⟨past', rest', hrun, hsound', by rw [hall, hframes, List.append_assoc]; rfl⟩

end TimelineBuilder

end GameTimeline
