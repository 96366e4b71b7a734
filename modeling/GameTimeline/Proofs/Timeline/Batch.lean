import GameTimeline.Proofs.Reconcile.Stream
import GameTimeline.Timeline.Builder

namespace GameTimeline

namespace CorrectedState

def reviseAll (s : CorrectedState) (es : List (String × Revision)) : CorrectedState :=
  es.foldl (fun s e => s.revise e.1 e.2) s

@[simp] theorem revise_frame (s : CorrectedState) (n : String) (rev : Revision) :
    (s.revise n rev).frame = s.frame := by
  rw [revise]
  split <;> rfl

@[simp] theorem reviseAll_frame (s : CorrectedState) (es : List (String × Revision)) :
    (s.reviseAll es).frame = s.frame := by
  induction es generalizing s with
  | nil => rfl
  | cons e es ih => exact (ih (s.revise e.1 e.2)).trans (revise_frame s e.1 e.2)

theorem reviseAll_append (s : CorrectedState) (es fs : List (String × Revision)) :
    s.reviseAll (es ++ fs) = (s.reviseAll es).reviseAll fs :=
  List.foldl_append

theorem reviseAll_eq_self {s : CorrectedState} {es : List (String × Revision)}
    (h : ∀ e ∈ es, e.2.covers s.frame = false) : s.reviseAll es = s := by
  induction es with
  | nil => rfl
  | cons e es ih =>
      have hout : s.revise e.1 e.2 = s := by
        rw [revise, h e (List.mem_cons_self ..)]
        rfl
      rw [reviseAll, List.foldl_cons, hout]
      exact ih fun x hx => h x (List.mem_cons_of_mem _ hx)

end CorrectedState

namespace StepReport

def records : List StepReport → List CorrectedState
  | [] => []
  | r :: later => r.record.reviseAll (later.flatMap revisions) :: records later

theorem records_concat (rs : List StepReport) (r : StepReport) :
    records (rs ++ [r]) = (records rs).map (·.reviseAll r.revisions) ++ [r.record] := by
  induction rs with
  | nil => rfl
  | cons q rs ih =>
      rw [List.cons_append, records, ih, records]
      simp [CorrectedState.reviseAll_append]

theorem records_frames (rs : List StepReport) :
    (records rs).map (·.frame) = rs.map (·.frame) := by
  induction rs with
  | nil => rfl
  | cons r rs ih =>
      rw [records, List.map_cons, List.map_cons, ih, CorrectedState.reviseAll_frame]
      rfl

def lastFields (rs : List StepReport) : Table Reading :=
  rs.getLast?.elim .empty (·.record.fields)

theorem lastFields_concat (rs : List StepReport) (r : StepReport) :
    lastFields (rs ++ [r]) = r.record.fields := by
  simp [lastFields]

end StepReport

namespace Reconciler

def reports (r : Reconciler) : List RawFrame → Except InputError (List StepReport × List RawFrame)
  | [] => .ok ([], [])
  | f :: rest => do
      let (r', report) ← r.step f
      match report.terminal with
      | [] =>
          let (later, after) ← r'.reports rest
          pure (report :: later, after)
      | _ :: _ => pure ([report], rest)

theorem reports_of_active {r r' : Reconciler} {f : RawFrame} {report : StepReport}
    (h : r.step f = .ok (r', report)) (ht : report.terminal = []) (rest : List RawFrame) :
    r.reports (f :: rest) = (r'.reports rest).map fun x => (report :: x.1, x.2) := by
  rw [reports, h]
  simp only [bind, Except.bind, ht]
  cases r'.reports rest <;> rfl

theorem reports_of_terminal {r r' : Reconciler} {f : RawFrame} {report : StepReport}
    (h : r.step f = .ok (r', report)) (ht : report.terminal ≠ []) (rest : List RawFrame) :
    r.reports (f :: rest) = .ok ([report], rest) := by
  rw [reports, h]
  simp only [bind, Except.bind]
  split
  · exact absurd ‹_› ht
  · rfl

theorem reports_cons {r : Reconciler} {f : RawFrame} {frames rest : List RawFrame}
    {reports : List StepReport} (h : r.reports (f :: frames) = .ok (reports, rest)) :
    ∃ r' report, r.step f = .ok (r', report) ∧
      ((∃ later, r'.reports frames = .ok (later, rest) ∧ reports = report :: later) ∨
        reports = [report] ∧ rest = frames) := by
  cases hstep : r.step f with
  | error e =>
      rw [Reconciler.reports, hstep] at h
      cases h
  | ok x =>
      obtain ⟨r', report⟩ := x
      refine ⟨r', report, rfl, ?_⟩
      by_cases hterminal : report.terminal = []
      · rw [reports_of_active hstep hterminal] at h
        cases hlater : r'.reports frames with
        | error e =>
            rw [hlater] at h
            cases h
        | ok y =>
            rw [hlater] at h
            cases h
            exact .inl ⟨y.1, rfl, rfl⟩
      · rw [reports_of_terminal hstep hterminal] at h
        cases h
        exact .inr ⟨rfl, rfl⟩

theorem reports_frames {r : Reconciler} {frames rest : List RawFrame} {reports : List StepReport}
    (h : r.reports frames = .ok (reports, rest)) :
    reports.map (·.frame) ++ rest.map (·.frame) = frames.map (·.frame) := by
  induction frames generalizing r reports with
  | nil =>
      cases h
      rfl
  | cons f frames ih =>
      obtain ⟨r', report, hstep, ⟨later, hlater, rfl⟩ | ⟨rfl, rfl⟩⟩ := reports_cons h
      · rw [List.map_cons, List.map_cons, List.cons_append, ih hlater,
          (stepped_of_step hstep).frame]
      · rw [List.map_cons, List.map_cons, (stepped_of_step hstep).frame]
        rfl

theorem run_of_reports {s : ModelSet} {past : List (RawFrame × StepReport)} {r : Reconciler}
    {frames rest : List RawFrame} {reports : List StepReport} (hrun : Run s past r)
    (h : r.reports frames = .ok (reports, rest)) :
    ∃ past' r', Run s past' r' ∧
      (past'.map (·.2)).reverse = (past.map (·.2)).reverse ++ reports ∧
      (past' = [] → rest = []) := by
  induction frames generalizing past r reports with
  | nil =>
      cases h
      exact ⟨past, r, hrun, (List.append_nil _).symm, fun _ => rfl⟩
  | cons f frames ih =>
      obtain ⟨r', report, hstep, ⟨later, hlater, rfl⟩ | ⟨rfl, rfl⟩⟩ := reports_cons h
      · obtain ⟨past', r'', hrun', hpast, hrest⟩ := ih (hrun.step hstep) hlater
        refine ⟨past', r'', hrun', ?_, hrest⟩
        rw [hpast]
        simp
      · exact ⟨(f, report) :: past, r', hrun.step hstep, by simp, fun hnil => nomatch hnil⟩

end Reconciler

end GameTimeline
