import GameTimeline.Proofs.Reconcile.Membership
import GameTimeline.Proofs.Timeline.Record
import GameTimeline.Proofs.Timeline.Session

namespace GameTimeline

def ModelSet.AdmitsAll (s : ModelSet) (values : Table Reading) : Prop :=
  ∀ n v, (values.get? n).join = some v → s.Admits n v

namespace CorrectedState

variable {s : ModelSet} {x : CorrectedState} {n : String} {rev : Revision}
  {es : List (String × Revision)}

def Within (s : ModelSet) (x : CorrectedState) : Prop := s.AdmitsAll x.fields

theorem Within.revise (h : x.Within s) (hrev : s.Admits n rev.value) :
    (x.revise n rev).Within s := by
  intro k v hv
  have hvalue : (x.revise n rev).value k = some v := hv
  rw [value_revise] at hvalue
  split at hvalue
  · rename_i hk
    cases hvalue
    exact hk.1 ▸ hrev
  · exact h k v hvalue

theorem Within.reviseAll (h : x.Within s) (hes : ∀ e ∈ es, s.Admits e.1 e.2.value) :
    (x.reviseAll es).Within s := by
  induction es generalizing x with
  | nil => exact h
  | cons e es ih =>
      exact ih (h.revise (hes e (List.mem_cons_self ..)))
        fun e' he' => hes e' (List.mem_cons_of_mem _ he')

end CorrectedState

namespace StepReport.Within

variable {s : ModelSet} {report : StepReport}

theorem record (h : report.Within s) : report.record.Within s := by
  intro n v hv
  rw [StepReport.record, Table.get?_map] at hv
  cases hst : report.fields.get? n with
  | none =>
      rw [hst] at hv
      cases hv
  | some st =>
      obtain ⟨m, hm, hwithin⟩ := h n st hst
      rw [hst] at hv
      exact ⟨m, hm, hwithin.value v hv⟩

theorem revisions (h : report.Within s) : ∀ e ∈ report.revisions, s.Admits e.1 e.2.value := by
  rintro ⟨n, rev⟩ he
  obtain ⟨st, hst, hrev⟩ := Reconciler.mem_revisions_iff.mp he
  obtain ⟨m, hm, hwithin⟩ := h n st hst
  exact ⟨m, hm, hwithin.revision rev hrev⟩

end StepReport.Within

theorem Timeline.mem_appendAll {x : CorrectedState} {ss : List CorrectedState} {t : Timeline}
    (h : x ∈ (t.appendAll ss).toList) : x ∈ t.toList ∨ x ∈ ss := by
  induction ss generalizing t with
  | nil => exact .inl h
  | cons s ss ih =>
      rcases ih h with hold | hnew
      · rw [toList_append] at hold
        split at hold
        · rcases List.mem_append.mp hold with hold | hone
          · exact .inl hold
          · exact .inr (List.mem_cons.mpr (.inl (List.mem_singleton.mp hone)))
        · exact .inl hold
      · exact .inr (List.mem_cons_of_mem _ hnew)

namespace TimelineBuilder

variable {s : ModelSet} {b b' : TimelineBuilder} {f : RawFrame} {states rest : List CorrectedState}
  {report : StepReport} {values : Table Reading} {past : List (RawFrame × StepReport)}
  {after : List RawFrame} {result : Except BuildError (List CorrectedState)}

structure Within (s : ModelSet) (b : TimelineBuilder) : Prop where
  reconciler : b.reconciler.Within s
  opened : ∀ x ∈ b.openStates, x.Within s
  closed : ∀ x ∈ b.closed.toList, x.Within s
  snapshot : ∀ frame field values, b.session = .frozen frame field values → s.AdmitsAll values

def Hands (s : ModelSet) (x : TimelineBuilder × List CorrectedState) : Prop :=
  x.1.Within s ∧ ∀ y ∈ x.2, y.Within s

namespace Within

theorem start (s : ModelSet) : (TimelineBuilder.new s).Within s where
  reconciler := .start s
  opened _ hx := nomatch hx
  closed _ hx := nomatch hx
  snapshot _ _ _ h := nomatch h

theorem close (h : b.Within s) (hsplit : b.openStates = states ++ rest) :
    Hands s (b.close states rest) := by
  have hstates : ∀ x ∈ states, x.Within s := fun x hx =>
    h.opened x (hsplit ▸ List.mem_append_left _ hx)
  refine ⟨⟨h.reconciler, ?_, ?_, h.snapshot⟩, hstates⟩
  · exact fun x hx => h.opened x (hsplit ▸ List.mem_append_right _ hx)
  · intro x hx
    rcases Timeline.mem_appendAll hx with hold | hnew
    · exact h.closed x hold
    · exact hstates x hnew

theorem closeAll (h : b.Within s) : Hands s b.closeAll := h.close (List.append_nil _).symm

theorem closeFinal (h : b.Within s) : Hands s b.closeFinal := by
  rw [TimelineBuilder.closeFinal]
  split
  · exact h.closeAll
  · exact h.close List.takeWhile_append_dropWhile.symm

theorem openRecord (h : b.Within s) {x : CorrectedState} (hx : x.Within s) :
    (b.openRecord x).Within s := by
  refine ⟨h.reconciler, fun y hy => ?_, h.closed, h.snapshot⟩
  rcases List.mem_append.mp hy with hold | hnew
  · exact h.opened y hold
  · exact List.mem_singleton.mp hnew ▸ hx

theorem takeReport (h : b.Within s) (hreport : report.Within s) :
    (b.takeReport report).Within s := by
  obtain ⟨quality, htake⟩ := takeReport_eq b report
  rw [htake]
  refine ⟨h.reconciler, fun x hx => ?_, h.closed, h.snapshot⟩
  rcases List.mem_append.mp hx with hold | hnew
  · obtain ⟨y, hy, rfl⟩ := List.mem_map.mp hold
    exact (h.opened y hy).reviseAll hreport.revisions
  · exact List.mem_singleton.mp hnew ▸ hreport.record

theorem expireAll (h : b.Within s) : b.expireAll.Within s :=
  ⟨h.reconciler.expireAll, h.opened, h.closed, h.snapshot⟩

theorem freeze (h : b.Within s) (hreport : report.Within s) (field : String) :
    (b.freeze report field).Within s := by
  refine ⟨h.reconciler, h.opened, h.closed, ?_⟩
  rintro frame field values hsession
  cases hsession
  exact hreport.record

theorem settle (h : b.Within s) (hreport : report.Within s) : Hands s (b.settle report) := by
  rw [TimelineBuilder.settle]
  split
  · exact h.closeFinal
  · exact (h.freeze hreport _).expireAll.closeAll

theorem pushActive (h : b.Within s) (hpush : b.pushActive f = .ok (b', states)) :
    Hands s (b', states) := by
  obtain ⟨r', report, hstep, hsettle⟩ := pushActive_eq_ok hpush
  obtain ⟨hreconciler, hreport⟩ := h.reconciler.step hstep
  have hstepped : Within s { b with reconciler := r' } :=
    ⟨hreconciler, h.opened, h.closed, h.snapshot⟩
  rw [← hsettle]
  exact (hstepped.takeReport hreport).settle hreport

theorem pushFrozen (h : b.Within s) (hvalues : s.AdmitsAll values)
    (hpush : b.pushFrozen f values = .ok (b', states)) : Hands s (b', states) := by
  rw [TimelineBuilder.pushFrozen] at hpush
  cases hskip : b.reconciler.skip f with
  | error e =>
      rw [hskip] at hpush
      cases hpush
  | ok r =>
      rw [hskip] at hpush
      have hskipped : Within s { b with
          reconciler := r, quality := b.quality.addFrame.addIgnored f } :=
        ⟨h.reconciler.skip hskip, h.opened, h.closed, h.snapshot⟩
      rw [← Except.ok.inj hpush]
      exact (hskipped.openRecord (x := replay f values) hvalues).closeAll

theorem pushNext (h : b.Within s) (hnext : b.pushNext f = .ok (b', states)) :
    Hands s (b', states) := by
  rw [TimelineBuilder.pushNext] at hnext
  split at hnext
  · exact h.pushActive hnext
  · rename_i hsession
    exact h.pushFrozen (h.snapshot _ _ _ hsession) hnext

theorem push (h : b.Within s) (hpush : b.push f = (b', result)) :
    b'.Within s ∧ ∀ states, result = .ok states → ∀ x ∈ states, x.Within s := by
  cases result with
  | ok states =>
      obtain ⟨hnew, hstates⟩ := h.pushNext (pushNext_of_push (sound_of_push hpush) hpush)
      refine ⟨hnew, fun _ hresult => ?_⟩
      cases hresult
      exact hstates
  | error e =>
      have hhealed : b.healed.Within s := ⟨h.reconciler, h.opened, h.closed, h.snapshot⟩
      rw [← healed_of_refused hpush] at hhealed
      exact ⟨⟨hhealed.reconciler, hhealed.opened, hhealed.closed, hhealed.snapshot⟩,
        fun _ hresult => nomatch hresult⟩

theorem finish (h : b.Within s) {t : Timeline} {quality : QualityReport}
    (hfinish : b.finish = .ok (t, quality)) : ∀ x ∈ t.toList, x.Within s := by
  rw [TimelineBuilder.finish] at hfinish
  split at hfinish
  · cases hfinish
  · cases hfinish
    exact h.expireAll.closeAll.1.closed

end Within

theorem Run.within (h : Run s past after b) : b.Within s := by
  induction h with
  | start => exact .start s
  | played _ _ _ hpush ih => exact (ih.push hpush).1
  | replayed _ _ hpush ih => exact (ih.push hpush).1
  | refused _ hpush ih => exact (ih.push hpush).1

end TimelineBuilder

end GameTimeline
