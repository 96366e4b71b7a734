import GameTimeline.Proofs.Timeline.Session
import GameTimeline.Proofs.Timeline.Upheld

namespace GameTimeline

namespace TimelineBuilder

variable {s : ModelSet} {past : List (RawFrame × StepReport)} {rest : List RawFrame}
  {b : TimelineBuilder} {n : String} {m : FieldModel} {seen : List RawFrame}

theorem finish_frozenAt {t : Timeline} {quality : QualityReport}
    (h : b.finish = .ok (t, quality)) : quality.frozenAt = b.quality.frozenAt := by
  rw [finish] at h
  split at h
  · cases h
  · cases h
    exact QualityReport.addDiscards_frozenAt b.quality _

theorem replay_shows {values : Table Reading} {r : Reading} (h : values.get? n = some r)
    (f : RawFrame) : (replay f values).Shows n .frozen r := by
  refine ⟨?_, ?_⟩
  · rw [replay, Table.get?_map, h]
    rfl
  · rw [CorrectedState.value, replay, h]
    rfl

theorem Over.told (h : Over s past rest b) (hm : s.get? n = some m)
    (hseen : ∀ e ∈ past, e.1 ∈ seen) :
    Told m n seen b.quality.frozenAt b.closed.toList := by
  obtain ⟨r, hrun⟩ := h.run
  obtain ⟨front, back, hstates, hup⟩ := hrun.upheld hm hseen
  have haccount := hup.whole
  rw [← hstates] at haccount
  rw [h.closed, h.frozenAt]
  cases past with
  | nil => exact absurd rfl h.nonempty
  | cons e older =>
      have hframe : e.2.frame = e.1.frame := (List.cons.inj hrun.report_frames).1
      obtain ⟨t, hist, -, -, hshare⟩ := hrun.field hm
      cases hshare with
      | cons he _ =>
          have hshows := StepReport.record_shows he.step
          rw [List.map_cons, List.reverse_cons, StepReport.records_concat] at haccount ⊢
          rw [StepReport.lastFields_concat]
          refine (haccount.told _).append_frozen (y := e.2.record) (by simp) ?_ ?_ ?_
          · rw [List.head?_cons, Option.map_some, ← hframe]
            rfl
          · intro x hx
            obtain ⟨f, -, rfl⟩ := List.mem_map.mp hx
            refine replay_shows ?_ f
            rw [hshows.2, StepReport.record, Table.get?_map, he.step]
            rfl
          · intro z hz hsome hnone
            have hr := haccount.last_value List.getLast?_concat
            exact hsome (haccount.stays.2 (hr.symm.trans hnone) z hz)

end TimelineBuilder

open TimelineBuilder

theorem assemble_run {s : ModelSet} {frames : List RawFrame} {t : Timeline}
    {quality : QualityReport} (h : assemble s frames = .ok (t, quality)) :
    ∃ past rest b, Run s past rest b ∧ b.poisoned = false ∧
      (past.map (·.1)).reverse ++ rest = frames ∧ b.finish = .ok (t, quality) := by
  rw [assemble, pushAll_eq] at h
  cases hpushes : (TimelineBuilder.new s).pushes frames with
  | error e =>
      rw [hpushes] at h
      cases h
  | ok x =>
      rw [hpushes] at h
      obtain ⟨past, rest, hrun, hsound, hframes⟩ := Run.start.pushes rfl hpushes
      exact ⟨past, rest, x.1, hrun, hsound, hframes, h⟩

theorem assemble_told {s : ModelSet} {frames : List RawFrame} {t : Timeline}
    {quality : QualityReport} {n : String} {m : FieldModel}
    (h : assemble s frames = .ok (t, quality)) (hm : s.get? n = some m) :
    Told m n frames quality.frozenAt t.toList := by
  obtain ⟨past, rest, b, hrun, hsound, hframes, hfinish⟩ := assemble_run h
  have hseen : ∀ e ∈ past, e.1 ∈ frames := by
    intro e he
    rw [← hframes]
    exact List.mem_append_left _ (List.mem_reverse.mpr (List.mem_map_of_mem he))
  have hphase := hrun.phase
  rw [healed_of_sound hsound] at hphase
  rw [finish_frozenAt hfinish]
  rcases hphase with ⟨-, hplaying⟩ | hover
  · obtain ⟨t', quality', hfinish', ht⟩ := finish_of_sound hsound hplaying.ordered
    cases hfinish.symm.trans hfinish'
    obtain ⟨front, back, hstates, hup⟩ := hplaying.run.upheld hm hseen
    rw [ht, hplaying.emitted, hstates]
    exact hup.whole.told _
  · have hemitted : b.emitted = b.closed.toList := by
      rw [emitted, hover.ended.nothing_open, List.append_nil]
    obtain ⟨t', quality', hfinish', ht⟩ :=
      finish_of_sound hsound (hemitted ▸ hover.ended.ordered)
    cases hfinish.symm.trans hfinish'
    rw [ht, hemitted]
    exact hover.told hm hseen

theorem assemble_told_gold : ∃ t quality,
    assemble (.single { FieldModel.boundedDelta "gold" 1 with terminal := some (.int 9) } rfl)
        [.new 0 0, .showing 1 "gold" 5, .new 2 0, .showing 3 "gold" 9, .showing 4 "gold" 9,
          .showing 5 "gold" 5] = .ok (t, quality) ∧
      t.toList.map (·.provenance.get? "gold") =
        [some .unresolved, some .observed, some .held, some .revised, some .observed,
          some .frozen] ∧
      t.series "gold" =
        [none, some (.int 5), some (.int 5), some (.int 9), some (.int 9), some (.int 9)] ∧
      Told { FieldModel.boundedDelta "gold" 1 with terminal := some (.int 9) } "gold"
        [.new 0 0, .showing 1 "gold" 5, .new 2 0, .showing 3 "gold" 9, .showing 4 "gold" 9,
          .showing 5 "gold" 5] (some 4) t.toList := by
  have hrun : ∃ t quality,
      assemble (.single { FieldModel.boundedDelta "gold" 1 with terminal := some (.int 9) } rfl)
          [.new 0 0, .showing 1 "gold" 5, .new 2 0, .showing 3 "gold" 9, .showing 4 "gold" 9,
            .showing 5 "gold" 5] = .ok (t, quality) ∧
        t.toList.map (·.provenance.get? "gold") =
          [some .unresolved, some .observed, some .held, some .revised, some .observed,
            some .frozen] ∧
        t.series "gold" =
          [none, some (.int 5), some (.int 5), some (.int 9), some (.int 9), some (.int 9)] ∧
        quality.frozenAt = some 4 :=
    ⟨_, _, rfl, rfl, rfl, rfl⟩
  obtain ⟨t, quality, h, htags, hseries, hfrozen⟩ := hrun
  have htold := assemble_told h (n := "gold") rfl
  rw [hfrozen] at htold
  exact ⟨t, quality, h, htags, hseries, htold⟩

end GameTimeline
