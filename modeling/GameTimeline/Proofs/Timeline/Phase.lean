import GameTimeline.Proofs.Reconcile.Reach
import GameTimeline.Proofs.Timeline.Batch
import GameTimeline.Proofs.Timeline.Store

namespace GameTimeline

theorem le_of_mem_dropWhile {states : List CorrectedState} {x : CorrectedState} {g : Nat}
    (hord : states.Pairwise (·.frame < ·.frame)) (hx : x ∈ states.dropWhile (·.frame < g)) :
    g ≤ x.frame := by
  rw [dropWhile_eq_filter (hord.imp fun hlt hy => by simp at hy ⊢; omega)] at hx
  simpa using (List.mem_filter.mp hx).2

namespace Reconciler

variable {s : ModelSet} {past : List (RawFrame × StepReport)} {r : Reconciler}

theorem Run.report_frames (h : Run s past r) :
    (past.map (·.2)).map (·.frame) = past.map (·.1.frame) := by
  induction h with
  | start => rfl
  | step _ hstep ih =>
      rw [List.map_cons, List.map_cons, List.map_cons, ih, (stepped_of_step hstep).frame]
  | refused _ _ ih => exact ih

theorem Run.record_frames (h : Run s past r) :
    (StepReport.records (past.map (·.2)).reverse).map (·.frame) =
      (past.map (·.1.frame)).reverse := by
  rw [StepReport.records_frames, List.map_reverse, h.report_frames]

theorem Run.records_ordered (h : Run s past r) :
    (StepReport.records (past.map (·.2)).reverse).Pairwise (·.frame < ·.frame) := by
  rw [← List.pairwise_map (f := CorrectedState.frame), h.record_frames, List.pairwise_reverse,
    List.pairwise_map]
  exact h.frames

theorem Run.frame_le_last (h : Run s past r) {x : CorrectedState}
    (hx : x ∈ StepReport.records (past.map (·.2)).reverse) :
    ∃ last, r.lastFrame = some last ∧ x.frame ≤ last := by
  have hmem : x.frame ∈ (past.map (·.1.frame)).reverse := by
    rw [← h.record_frames]
    exact List.mem_map_of_mem hx
  obtain ⟨e, he, hframe⟩ := List.mem_map.mp (List.mem_reverse.mp hmem)
  obtain ⟨last, hlast, hle⟩ := h.entry_le_last he
  exact ⟨last, hlast, hframe ▸ hle⟩

end Reconciler

namespace TimelineBuilder

def emitted (b : TimelineBuilder) : List CorrectedState := b.closed.toList ++ b.openStates

theorem foldl_applyRevision (b : TimelineBuilder) (es : List (String × Revision)) :
    ∃ quality, es.foldl applyRevision b =
      { b with openStates := b.openStates.map (·.reviseAll es), quality } := by
  induction es generalizing b with
  | nil =>
      refine ⟨b.quality, ?_⟩
      simp [CorrectedState.reviseAll]
  | cons e es ih =>
      obtain ⟨quality, hrest⟩ := ih (b.applyRevision e)
      refine ⟨quality, ?_⟩
      rw [List.foldl_cons, hrest]
      simp [applyRevision, CorrectedState.reviseAll]

theorem takeReport_eq (b : TimelineBuilder) (r : StepReport) :
    ∃ quality, b.takeReport r =
      { b with
        openStates := b.openStates.map (·.reviseAll r.revisions) ++ [r.record]
        quality } := by
  obtain ⟨quality, hfold⟩ :=
    foldl_applyRevision { b with quality := b.quality.addFrame } r.revisions
  refine ⟨(quality.addDiscards r.discarded).addSteps r, ?_⟩
  rw [takeReport, hfold]
  rfl

theorem takeReport_closed (b : TimelineBuilder) (r : StepReport) :
    (b.takeReport r).closed = b.closed := by
  obtain ⟨quality, htake⟩ := takeReport_eq b r
  rw [htake]

theorem takeReport_reconciler (b : TimelineBuilder) (r : StepReport) :
    (b.takeReport r).reconciler = b.reconciler := by
  obtain ⟨quality, htake⟩ := takeReport_eq b r
  rw [htake]

theorem closeFinal_reconciler (b : TimelineBuilder) :
    b.closeFinal.1.reconciler = b.reconciler := by
  rw [closeFinal]
  split <;> rfl

theorem close_closed {b : TimelineBuilder} {states rest : List CorrectedState}
    (hsplit : b.openStates = states ++ rest) (hord : b.emitted.Pairwise (·.frame < ·.frame)) :
    (b.close states rest).1.closed.toList = b.closed.toList ++ states := by
  refine Timeline.toList_appendAll ?_
  rw [emitted, hsplit, ← List.append_assoc] at hord
  exact (List.pairwise_append.mp hord).1

theorem close_emitted {b : TimelineBuilder} {states rest : List CorrectedState}
    (hsplit : b.openStates = states ++ rest) (hord : b.emitted.Pairwise (·.frame < ·.frame)) :
    (b.close states rest).1.emitted = b.emitted := by
  rw [emitted, close_closed hsplit hord, emitted, hsplit, List.append_assoc]
  rfl

structure Follows (s : ModelSet) (past : List (RawFrame × StepReport)) (b : TimelineBuilder) :
    Prop where
  run : Reconciler.Run s past b.reconciler
  session : b.session = .active
  sound : b.poisoned = false
  emitted : b.emitted = StepReport.records (past.map (·.2)).reverse
  final : ∀ x ∈ b.closed.toList, ∀ p, b.reconciler.Awaits p → x.frame < p.frame

namespace Follows

variable {s : ModelSet} {past : List (RawFrame × StepReport)} {b : TimelineBuilder}
  {r' : Reconciler} {f : RawFrame} {report : StepReport}

theorem start (s : ModelSet) : Follows s [] (.new s) where
  run := .start
  session := rfl
  sound := rfl
  emitted := rfl
  final _ hx := nomatch hx

theorem ordered (h : Follows s past b) : b.emitted.Pairwise (·.frame < ·.frame) :=
  h.emitted ▸ h.run.records_ordered

theorem before (h : Follows s past b) (hstep : b.reconciler.step f = .ok (r', report)) :
    ∀ x ∈ b.emitted, x.frame < f.frame := by
  intro x hx
  rw [h.emitted] at hx
  obtain ⟨last, hlast, hle⟩ := h.run.frame_le_last hx
  exact Nat.lt_of_le_of_lt hle ((Reconciler.stepped_of_step hstep).later last hlast)

theorem closed_untouched (h : Follows s past b)
    (hstep : b.reconciler.step f = .ok (r', report)) :
    b.closed.toList.map (·.reviseAll report.revisions) = b.closed.toList := by
  have hkept : ∀ x ∈ b.closed.toList, x.reviseAll report.revisions = x := by
    intro x hx
    refine CorrectedState.reviseAll_eq_self ?_
    rintro ⟨n, rev⟩ hrev
    obtain ⟨p, hp, hfirst⟩ := Reconciler.revision_awaited h.run hstep hrev
    have hlt := h.final x hx p hp
    have hnot : ¬ rev.first ≤ x.frame := by omega
    simp [Revision.covers, hnot]
  rw [List.map_congr_left hkept, List.map_id']

theorem take (h : Follows s past b) (hstep : b.reconciler.step f = .ok (r', report)) :
    Follows s ((f, report) :: past) ({ b with reconciler := r' }.takeReport report) := by
  obtain ⟨quality, htake⟩ := takeReport_eq { b with reconciler := r' } report
  rw [htake]
  refine ⟨h.run.step hstep, h.session, h.sound, ?_, ?_⟩
  · have hold : b.emitted.map (·.reviseAll report.revisions) =
        b.closed.toList ++ b.openStates.map (·.reviseAll report.revisions) := by
      rw [TimelineBuilder.emitted, List.map_append, h.closed_untouched hstep]
    rw [List.map_cons, List.reverse_cons, StepReport.records_concat, ← h.emitted, hold,
      List.append_assoc]
    rfl
  · intro x hx p hp
    rcases Reconciler.awaits_of_step h.run hstep hp with hold | hnew
    · exact h.final x hx p hold
    · rw [hnew]
      exact h.before hstep x (List.mem_append_left _ hx)

theorem closed_by (h : Follows s past b) {states rest : List CorrectedState}
    (hsplit : b.openStates = states ++ rest)
    (hfinal : ∀ x ∈ states, ∀ p, b.reconciler.Awaits p → x.frame < p.frame) :
    Follows s past (b.close states rest).1 where
  run := h.run
  session := h.session
  sound := h.sound
  emitted := (close_emitted hsplit h.ordered).trans h.emitted
  final := by
    intro x hx p hp
    rw [close_closed hsplit h.ordered] at hx
    rcases List.mem_append.mp hx with hold | hnew
    · exact h.final x hold p hp
    · exact hfinal x hnew p hp

theorem closeFinal (h : Follows s past b) :
    Follows s past b.closeFinal.1 ∧
      b.closeFinal.1.closed.toList = b.closed.toList ++ b.closeFinal.2 := by
  rw [TimelineBuilder.closeFinal]
  cases hh : b.reconciler.horizon with
  | none =>
      have hsplit : b.openStates = b.openStates ++ [] := (List.append_nil _).symm
      refine ⟨h.closed_by hsplit ?_, close_closed hsplit h.ordered⟩
      intro x _ p hp
      obtain ⟨first, hfirst, -⟩ := Reconciler.horizon_le h.run hp
      cases hh.symm.trans hfirst
  | some first =>
      have hsplit : b.openStates = b.openStates.takeWhile (·.frame < first) ++
          b.openStates.dropWhile (·.frame < first) := List.takeWhile_append_dropWhile.symm
      refine ⟨h.closed_by hsplit ?_, close_closed hsplit h.ordered⟩
      intro x hx p hp
      obtain ⟨first', hfirst, hle⟩ := Reconciler.horizon_le h.run hp
      obtain rfl : first = first' := Option.some.inj (hh.symm.trans hfirst)
      have hlt : ∀ x ∈ b.openStates.takeWhile (·.frame < first), x.frame < first :=
        fun _ hy => by simpa using List.mem_takeWhile_imp hy
      exact Nat.lt_of_lt_of_le (hlt x hx) hle

theorem freeze_closed (h : Follows s past b) (report : StepReport) (field : String) :
    (((b.freeze report field).expireAll).closeAll).1.closed.toList = b.emitted :=
  close_closed (b := (b.freeze report field).expireAll) (List.append_nil _).symm h.ordered

end Follows

structure Ended (values : Table Reading) (b : TimelineBuilder) : Prop where
  session : ∃ frame field, b.session = .frozen frame field values
  sound : b.poisoned = false
  nothing_open : b.openStates = []
  ordered : b.closed.toList.Pairwise (·.frame < ·.frame)
  reached : ∀ x ∈ b.closed.toList, ∃ last, b.reconciler.lastFrame = some last ∧ x.frame ≤ last

namespace Ended

variable {values : Table Reading} {b b' : TimelineBuilder} {f : RawFrame}
  {states : List CorrectedState}

theorem replayed (h : Ended values b) (hpush : b.pushFrozen f values = .ok (b', states)) :
    Ended values b' ∧ states = [replay f values] ∧
      b'.closed.toList = b.closed.toList ++ [replay f values] := by
  rw [pushFrozen, Reconciler.skip] at hpush
  cases hcheck : b.reconciler.check f with
  | error e =>
      rw [hcheck] at hpush
      cases hpush
  | ok _ =>
      simp only [hcheck, bind, Except.bind, pure, Except.pure, Except.ok.injEq, closeAll, close,
        openRecord, h.nothing_open, List.nil_append, Prod.mk.injEq] at hpush
      obtain ⟨rfl, rfl⟩ := hpush
      have hafter : ∀ x ∈ b.closed.toList, x.frame < f.frame := by
        intro x hx
        obtain ⟨last, hlast, hle⟩ := h.reached x hx
        exact Nat.lt_of_le_of_lt hle (Reconciler.lt_of_check hcheck hlast)
      have hclosed := Timeline.toList_append_of_after (s := replay f values) hafter
      refine ⟨⟨h.session, h.sound, rfl, ?_, ?_⟩, rfl, hclosed⟩
      · show ((b.closed.append (replay f values)).toList).Pairwise (·.frame < ·.frame)
        rw [hclosed]
        exact List.pairwise_append.mpr ⟨h.ordered, List.pairwise_singleton .., fun x hx y hy =>
          List.mem_singleton.mp hy ▸ hafter x hx⟩
      · intro x hx
        have hx' : x ∈ (b.closed.append (replay f values)).toList := hx
        rw [hclosed] at hx'
        refine ⟨f.frame, rfl, ?_⟩
        rcases List.mem_append.mp hx' with hold | hnew
        · exact Nat.le_of_lt (hafter x hold)
        · rw [List.mem_singleton.mp hnew]
          exact Nat.le_refl _

end Ended

theorem Follows.ended {s : ModelSet} {past : List (RawFrame × StepReport)} {b : TimelineBuilder}
    (h : Follows s past b) (report : StepReport) (field : String) :
    Ended report.record.fields (((b.freeze report field).expireAll).closeAll).1 where
  session := ⟨report.frame, field, rfl⟩
  sound := h.sound
  nothing_open := rfl
  ordered := by
    rw [h.freeze_closed report field]
    exact h.ordered
  reached := by
    rw [h.freeze_closed report field, h.emitted]
    exact fun x hx => h.run.frame_le_last hx

end TimelineBuilder

end GameTimeline
