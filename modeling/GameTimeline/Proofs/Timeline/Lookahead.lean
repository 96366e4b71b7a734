import GameTimeline.Proofs.Timeline.Complete
import GameTimeline.Proofs.Timeline.Lookback

namespace GameTimeline

variable {s : ModelSet} {past : List (RawFrame × StepReport)} {rest frames : List RawFrame}

namespace Reconciler

variable {r r' : Reconciler} {f : RawFrame} {report : StepReport} {n : String} {m : FieldModel}
  {rev : Revision} {x : CorrectedState} {a i : Nat}

theorem Run.recent_of_covers (h : Run s past r) (hspans : r.Spans past m a rev)
    (hx : (StepReport.records (past.map (·.2)).reverse)[i]? = some x)
    (hcovers : rev.covers x.frame = true) : past.length < i + m.window := by
  have hlength : (StepReport.records (past.map (·.2)).reverse).length = past.length := by
    simpa using congrArg List.length h.record_frames
  have hord := h.records_ordered
  obtain ⟨hi, rfl⟩ := List.getElem?_eq_some_iff.mp hx
  -- with the record at `i` all that follow it are covered
  have hlater : ∀ y ∈ (StepReport.records (past.map (·.2)).reverse).drop i,
      rev.covers y.frame = true := by
    intro y hy
    obtain ⟨last, hlast, hle⟩ := h.frame_le_last (List.mem_of_mem_drop hy)
    obtain rfl := Option.some.inj (hlast.symm.trans hspans.last)
    have hge : (StepReport.records (past.map (·.2)).reverse)[i].frame ≤ y.frame := by
      rw [List.drop_eq_getElem_cons hi] at hy
      rcases List.mem_cons.mp hy with rfl | hy
      · exact Nat.le_refl _
      · have htail := hord.sublist (List.drop_sublist i _)
        rw [List.drop_eq_getElem_cons hi] at htail
        exact Nat.le_of_lt ((List.pairwise_cons.mp htail).1 y hy)
    simp only [Revision.covers, Bool.and_eq_true, decide_eq_true_eq] at hcovers ⊢
    omega
  have hcount : past.length - i ≤ m.window - 1 :=
    calc past.length - i
        = ((StepReport.records (past.map (·.2)).reverse).drop i).countP (rev.covers ·.frame) := by
          rw [List.countP_eq_length.mpr hlater, List.length_drop, hlength]
      _ ≤ (StepReport.records (past.map (·.2)).reverse).countP (rev.covers ·.frame) :=
          (List.drop_sublist i _).countP_le
      _ = past.countP (rev.covers ·.1.frame) := h.countP_records rev.covers
      _ ≤ m.window - 1 := hspans.few_frames
  omega

theorem Run.cell_kept (h : Run s past r) (hstep : r.step f = .ok (r', report))
    (hm : s.get? n = some m)
    (hx : (StepReport.records (past.map (·.2)).reverse)[i]? = some x)
    (hold : i + m.window ≤ past.length) : (x.reviseAll report.revisions).cell n = x.cell n := by
  obtain ⟨st, hst⟩ : ∃ st, report.fields.get? n = some st := by
    have hkeys := ((h.step hstep).report_shape (List.mem_cons_self ..)).2.2
    rw [← Table.mem_keys_iff, hkeys]
    exact ModelSet.mem_names_iff.mpr ⟨m, hm⟩
  rw [CorrectedState.cell_reviseAll hst]
  refine Cell.revise_of_not_touched (Bool.eq_false_iff.mpr fun htouched => ?_)
  obtain ⟨rev, hrev, hcovers⟩ := Option.any_eq_true _ _ |>.mp htouched
  obtain ⟨v, a, -, hspans⟩ := h.spans hm hstep (mem_revisions_iff.mpr ⟨st, hst, hrev⟩)
  have hrecent := h.recent_of_covers hspans hx hcovers
  omega

end Reconciler

namespace TimelineBuilder

variable {b b' b'' : TimelineBuilder} {f : RawFrame} {states : List CorrectedState}
  {t : Timeline} {quality : QualityReport}

structure Extends (s : ModelSet) (b b' : TimelineBuilder) : Prop where
  closed : b.closed.toList <+: b'.closed.toList
  grows : b.emitted.length ≤ b'.emitted.length
  settled : ∀ n m i x, s.get? n = some m → i + m.window ≤ b.emitted.length →
    b.emitted[i]? = some x → ∃ x', b'.emitted[i]? = some x' ∧ x'.cell n = x.cell n

theorem Extends.refl (s : ModelSet) (b : TimelineBuilder) : Extends s b b :=
  ⟨List.prefix_rfl, Nat.le_refl _, fun _ _ _ x _ _ hx => ⟨x, hx, rfl⟩⟩

theorem Extends.trans (h : Extends s b b') (h' : Extends s b' b'') : Extends s b b'' where
  closed := h.closed.trans h'.closed
  grows := h.grows.trans h'.grows
  settled n m i x hm hold hx := by
    obtain ⟨x', hx', hcell'⟩ := h.settled n m i x hm hold hx
    obtain ⟨x'', hx'', hcell''⟩ := h'.settled n m i x' hm (hold.trans h.grows) hx'
    exact ⟨x'', hx'', hcell''.trans hcell'⟩

theorem Extends.of_growing (hclosed : b.closed.toList <+: b'.closed.toList)
    (hemitted : b.emitted <+: b'.emitted) : Extends s b b' where
  closed := hclosed
  grows := hemitted.length_le
  settled _ _ i x _ _ hx := by
    obtain ⟨tail, hall⟩ := hemitted
    rw [← hall]
    exact ⟨x, List.getElem?_append_left (List.getElem?_eq_some_iff.mp hx).1 ▸ hx, rfl⟩

theorem Follows.extends (h : Follows s past b) (hpush : b.push f = (b', .ok states)) :
    Extends s b b' := by
  obtain ⟨r', report, hstep, hclosed, hphase⟩ := h.push hpush
  have hemitted : b'.emitted = b.emitted.map (·.reviseAll report.revisions) ++ [report.record] := by
    have hall : b'.emitted = StepReport.records (((f, report) :: past).map (·.2)).reverse := by
      rcases hphase with ⟨-, -, hfollows⟩ | ⟨-, hended, hall⟩
      · exact hfollows.emitted
      · rw [TimelineBuilder.emitted, hended.nothing_open, List.append_nil, hall]
    rw [hall, List.map_cons, List.reverse_cons, StepReport.records_concat, h.emitted]
  refine ⟨⟨states, hclosed.symm⟩, by simp [hemitted], fun n m i x hm hold hx => ?_⟩
  have hlength : b.emitted.length = past.length := by
    rw [h.emitted]
    simpa using congrArg List.length h.run.record_frames
  refine ⟨x.reviseAll report.revisions, ?_, ?_⟩
  · have hi := (List.getElem?_eq_some_iff.mp hx).1
    rw [hemitted, List.getElem?_append_left (by simpa using hi), List.getElem?_map, hx]
    rfl
  · rw [h.emitted] at hx
    exact h.run.cell_kept hstep hm hx (hlength ▸ hold)

theorem Run.extends (h : Run s past rest b) (hpush : b.push f = (b', .ok states)) :
    Extends s b b' := by
  have hsound := sound_of_push hpush
  have hphase := h.phase
  rw [healed_of_sound hsound] at hphase
  rcases hphase with ⟨rfl, hplaying⟩ | hover
  · exact hplaying.toFollows.extends hpush
  · have hnext := pushNext_of_push hsound hpush
    obtain ⟨frame, field, hsession⟩ := hover.ended.session
    rw [pushNext, hsession] at hnext
    obtain ⟨hended, -, hclosed⟩ := hover.ended.replayed hnext
    have hprefix : b.closed.toList <+: b'.closed.toList := ⟨_, hclosed.symm⟩
    have hopen : b.openStates = [] := hover.ended.nothing_open
    refine .of_growing hprefix ?_
    rwa [emitted, emitted, hopen, hended.nothing_open, List.append_nil, List.append_nil]

theorem Run.extends_all (h : Run s past rest b) (hall : b.pushAll frames = .ok b') :
    Extends s b b' ∧ ∃ past' rest', Run s past' rest' b' := by
  induction frames generalizing past rest b with
  | nil =>
      cases hall
      exact ⟨.refl s _, past, rest, h⟩
  | cons f frames ih =>
      rw [pushAll] at hall
      split at hall
      · rename_i b₁ states hpush
        obtain ⟨past₁, rest₁, hnext, -⟩ := h.next hpush
        obtain ⟨hlater, hrun⟩ := ih hnext hall
        exact ⟨(h.extends hpush).trans hlater, hrun⟩
      · cases hall

theorem Run.emitted_of_finish (h : Run s past rest b) (hfinish : b.finish = .ok (t, quality)) :
    t.toList = b.emitted := by
  obtain ⟨hsound, -, -⟩ := finish_eq_ok hfinish
  have hphase := h.phase
  rw [healed_of_sound hsound] at hphase
  have hord : b.emitted.Pairwise (·.frame < ·.frame) := by
    rcases hphase with ⟨-, hplaying⟩ | hover
    · exact hplaying.ordered
    · have hopen : b.openStates = [] := hover.ended.nothing_open
      rw [emitted, hopen, List.append_nil]
      exact hover.ended.ordered
  obtain ⟨t', quality', hfinish', ht⟩ := finish_of_sound hsound hord
  cases hfinish.symm.trans hfinish'
  exact ht

theorem sound_of_pushAll (h : (TimelineBuilder.new s).pushAll frames = .ok b) :
    b.poisoned = false := by
  rw [pushAll_eq] at h
  cases hpushes : (TimelineBuilder.new s).pushes frames with
  | error e =>
      rw [hpushes] at h
      cases h
  | ok x =>
      rw [hpushes] at h
      cases h
      obtain ⟨_, _, -, hsound, -⟩ := Run.start.pushes rfl hpushes
      exact hsound

theorem pushAll_length (h : (TimelineBuilder.new s).pushAll frames = .ok b) :
    b.emitted.length = frames.length := by
  obtain ⟨past, rest, hrun, -⟩ := pushAll_run h
  obtain ⟨t, quality, hfinish⟩ := finish_eq_ok_iff.mpr (sound_of_pushAll h)
  have hok : assemble s frames = .ok (t, quality) := by
    rw [assemble, h]
    exact hfinish
  obtain ⟨_, _, _, hall⟩ := assembled hok
  rw [← hrun.emitted_of_finish hfinish]
  simpa using congrArg List.length hall.stamps

theorem assemble_extends {common later : List RawFrame}
    (h : assemble s (common ++ later) = .ok (t, quality)) :
    ∃ b b', (TimelineBuilder.new s).pushAll common = .ok b ∧ b.emitted.length = common.length ∧
      Extends s b b' ∧ b'.emitted = t.toList := by
  rw [assemble, pushAll_append] at h
  cases hcommon : (TimelineBuilder.new s).pushAll common with
  | error e =>
      rw [hcommon] at h
      cases h
  | ok b =>
      rw [hcommon] at h
      cases hlater : b.pushAll later with
      | error e =>
          simp [bind, Except.bind, hlater] at h
      | ok b' =>
          have hfinish : b'.finish = .ok (t, quality) := by
            simpa [bind, Except.bind, hlater] using h
          obtain ⟨past, rest, hrun, -⟩ := pushAll_run hcommon
          obtain ⟨hextends, past', rest', hrun'⟩ := hrun.extends_all hlater
          exact ⟨b, b', rfl, pushAll_length hcommon, hextends,
            (hrun'.emitted_of_finish hfinish).symm⟩

end TimelineBuilder

theorem assemble_lookahead_bounded {s : ModelSet} {common later later' : List RawFrame}
    {t t' : Timeline} {quality quality' : QualityReport}
    (h : assemble s (common ++ later) = .ok (t, quality))
    (h' : assemble s (common ++ later') = .ok (t', quality')) :
    (∀ n m, s.get? n = some m → m.window ≤ common.length →
      ∀ i < common.length - m.window + 1, ∃ x x', t.toList[i]? = some x ∧
        t'.toList[i]? = some x' ∧ x.cell n = x'.cell n) ∧
    ∃ b, (TimelineBuilder.new s).pushAll common = .ok b ∧
      b.closed.toList <+: t.toList ∧ b.closed.toList <+: t'.toList := by
  obtain ⟨b, end₁, hcommon, hlength, hextends, ht⟩ := TimelineBuilder.assemble_extends h
  obtain ⟨b', end₂, hcommon', -, hextends', ht'⟩ := TimelineBuilder.assemble_extends h'
  cases hcommon.symm.trans hcommon'
  refine ⟨fun n m hm hwindow i hi => ?_, b, hcommon, ?_, ?_⟩
  · have hpos := FieldModel.window_pos (ModelSet.validate_of_get? hm)
    have hlt : i < b.emitted.length := by omega
    have hold : i + m.window ≤ b.emitted.length := by omega
    have hx := List.getElem?_eq_getElem hlt
    obtain ⟨x, hx₁, hcell₁⟩ := hextends.settled n m i _ hm hold hx
    obtain ⟨x', hx₂, hcell₂⟩ := hextends'.settled n m i _ hm hold hx
    exact ⟨x, x', ht ▸ hx₁, ht' ▸ hx₂, hcell₁.trans hcell₂.symm⟩
  · exact ht ▸ hextends.closed.trans (List.prefix_append _ _)
  · exact ht' ▸ hextends'.closed.trans (List.prefix_append _ _)

theorem assemble_lookahead_bounded_gold : ∃ t t' quality quality' b x x',
    assemble (.single { FieldModel.boundedDelta "gold" 1 with terminal := some (.int 9) } rfl)
        ([.showing 0 "gold" 5, .showing 1 "gold" 9, .new 2 0] ++ [.showing 3 "gold" 9]) =
          .ok (t, quality) ∧
      assemble (.single { FieldModel.boundedDelta "gold" 1 with terminal := some (.int 9) } rfl)
        ([.showing 0 "gold" 5, .showing 1 "gold" 9, .new 2 0] ++ [.showing 3 "gold" 5]) =
          .ok (t', quality') ∧
      quality.frozenAt = some 3 ∧
      t.series "gold" = [some (.int 5), some (.int 9), some (.int 9), some (.int 9)] ∧
      t'.series "gold" = [some (.int 5), some (.int 5), some (.int 5), some (.int 5)] ∧
      t.toList[0]? = some x ∧ t'.toList[0]? = some x' ∧ x.cell "gold" = x'.cell "gold" ∧
      (TimelineBuilder.new
          (.single { FieldModel.boundedDelta "gold" 1 with terminal := some (.int 9) } rfl)).pushAll
        [.showing 0 "gold" 5, .showing 1 "gold" 9, .new 2 0] = .ok b ∧
      b.closed.size = 1 ∧ b.closed.toList <+: t.toList ∧ b.closed.toList <+: t'.toList := by
  have hrun : ∃ t quality,
      assemble (.single { FieldModel.boundedDelta "gold" 1 with terminal := some (.int 9) } rfl)
        ([.showing 0 "gold" 5, .showing 1 "gold" 9, .new 2 0] ++ [.showing 3 "gold" 9]) =
          .ok (t, quality) ∧
      quality.frozenAt = some 3 ∧
      t.series "gold" = [some (.int 5), some (.int 9), some (.int 9), some (.int 9)] :=
    ⟨_, _, rfl, rfl, rfl⟩
  have hrun' : ∃ t quality,
      assemble (.single { FieldModel.boundedDelta "gold" 1 with terminal := some (.int 9) } rfl)
        ([.showing 0 "gold" 5, .showing 1 "gold" 9, .new 2 0] ++ [.showing 3 "gold" 5]) =
          .ok (t, quality) ∧
      t.series "gold" = [some (.int 5), some (.int 5), some (.int 5), some (.int 5)] :=
    ⟨_, _, rfl, rfl⟩
  have hpart : ∃ b, (TimelineBuilder.new
          (.single { FieldModel.boundedDelta "gold" 1 with terminal := some (.int 9) } rfl)).pushAll
        [.showing 0 "gold" 5, .showing 1 "gold" 9, .new 2 0] = .ok b ∧ b.closed.size = 1 :=
    ⟨_, rfl, rfl⟩
  obtain ⟨t, quality, h, hfrozen, hseries⟩ := hrun
  obtain ⟨t', quality', h', hseries'⟩ := hrun'
  obtain ⟨b, hpart, hsize⟩ := hpart
  obtain ⟨hsettled, b', hcommon, hclosed, hclosed'⟩ := assemble_lookahead_bounded h h'
  obtain rfl : b = b' := Except.ok.inj (hpart.symm.trans hcommon)
  obtain ⟨x, x', hx, hx', hcell⟩ := hsettled "gold"
    { FieldModel.boundedDelta "gold" 1 with terminal := some (.int 9) } rfl (by decide) 0
    (by decide)
  exact ⟨t, t', quality, quality', b, x, x', h, h', hfrozen, hseries, hseries', hx, hx', hcell,
    hcommon, hsize, hclosed, hclosed'⟩

end GameTimeline
