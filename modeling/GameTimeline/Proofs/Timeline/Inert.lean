import GameTimeline.Proofs.Timeline.Omission

namespace GameTimeline

namespace Track

variable {m : FieldModel} {past past' : List (Observation × FieldStep)} {t t' : Track}
  {o : Observation} {e e' : Observation × FieldStep} {st st' : FieldStep} {drop : Nat → Bool}
  {ps : List Pending}

theorem Alike.firstCell (h : Alike drop e.1 ps e'.2 e.2) (hobs : e'.1 = e.1.without drop) :
    firstCell e' = firstCell e := by
  have hprovenance : e'.2.provenance = e.2.provenance := by
    rw [FieldStep.provenance, FieldStep.provenance, h.value, h.accepted]
  rw [Track.firstCell, Track.firstCell, hobs, h.value, hprovenance]
  rfl

theorem Alike.revision_eq (h : Alike drop o ps st' st)
    (hkept : st.outcome.isAccepted = true → ∀ p ∈ ps, drop p.frame = false) :
    st'.revision = st.revision := by
  by_cases hout : st.outcome = .confirmed
  · obtain ⟨c, -, hrev, hrev'⟩ := h.confirmed hout
    have hall : ps.filter (!drop ·.frame) = ps := by
      refine List.filter_eq_self.mpr fun p hp => ?_
      rw [hkept (by rw [hout]; rfl) p hp]
      rfl
    rw [hrev, hrev', hall]
  · exact h.revision hout

theorem Run.column_inert (hm : m.validate = .ok ()) (h : Run m past t) (h' : Run m past' t')
    (hobs : past'.map (·.1) = past.map (·.1.without drop))
    (hspared : ∀ g ∈ provenIn m past, drop g = false)
    (hkept : ∀ d ∈ past.flatMap (·.2.discarded), d.reason = .suspectSuperseded →
      drop d.frame = false) : column past' = column past := by
  induction past generalizing past' t t' with
  | nil =>
      obtain rfl := List.map_eq_nil_iff.mp hobs
      rfl
  | cons e past ih =>
      cases past' with
      | nil => cases hobs
      | cons e' past' =>
          have halike := h.alike hm h' hobs hspared
          obtain ⟨hone, hrest⟩ := List.cons.inj hobs
          obtain ⟨t₀, hrun, -⟩ := h.of_cons
          obtain ⟨t₀', hrun', -⟩ := h'.of_cons
          have hold := ih hrun hrun' hrest (fun g hg => hspared g (List.mem_append_right _ hg))
            fun d hd => hkept d (List.mem_append_right _ hd)
          have hwaiting (ha : e.2.outcome.isAccepted = true) :
              ∀ p ∈ waiting m past, drop p.frame = false := by
            intro p hp
            rcases h.agrees_or_superseded hm ha hp with hagrees | hsuperseded
            · exact hspared p.frame (List.mem_append_left _ (mem_proven_of_agrees ha hp hagrees))
            · exact hkept _ (List.mem_append_left _ hsuperseded) rfl
          have hrevise (c : Cell) : c.revise e'.2 = c.revise e.2 := by
            rw [Cell.revise, Cell.revise, halike.revision_eq hwaiting]
          simp only [column_cons, halike.firstCell hone, hold, hrevise]

end Track

theorem StepReport.lastFields_of_records (rs : List StepReport) :
    lastFields rs = ((records rs).getLast?.map (·.fields)).getD .empty := by
  rcases List.eq_nil_or_concat' rs with rfl | ⟨rs, r, rfl⟩
  · rfl
  · rw [lastFields_concat, records_concat, List.getLast?_concat]
    rfl

namespace Reconciler

variable {s : ModelSet} {past past' : List (RawFrame × StepReport)} {r : Reconciler} {n : String}
  {m : FieldModel} {hist : List (Observation × FieldStep)} {t : Track}
  {drop : String → Nat → Bool}

theorem Run.track_of_share (h : Run s past r) (hm : s.get? n = some m) (hrun : Track.Run m hist t)
    (hshare : List.Forall₂ (Share n) past hist) : r.tracks.get? n = some t := by
  obtain ⟨t', hist', ht', hrun', hshare'⟩ := h.field hm
  obtain ⟨-, rfl⟩ := hrun.unique hrun' (by
    rw [input_eq_of_share hshare, input_eq_of_share hshare'])
  exact ht'

theorem Run.records_full (h : Run s past r) :
    ∀ x ∈ StepReport.records (past.map (·.2)).reverse, x.Full s := by
  refine StepReport.records_full fun q hq => ?_
  obtain ⟨e, he, rfl⟩ := List.mem_map.mp (List.mem_reverse.mp hq)
  exact (h.report_shape he).2.2

theorem Omitted.stamps (h : Omitted s drop past past') :
    (StepReport.records (past'.map (·.2)).reverse).map (·.stamp) =
      (StepReport.records (past.map (·.2)).reverse).map (·.stamp) := by
  have hstamps {past : List (RawFrame × StepReport)} {r : Reconciler} (hrun : Run s past r) :
      (past.map (·.2)).map (fun q => (q.frame, q.timestamp)) =
        (past.map (·.1)).map fun f => (f.frame, f.timestamp) := by
    rw [List.map_map, List.map_map]
    refine List.map_congr_left fun e he => ?_
    obtain ⟨hframe, htimestamp, -⟩ := hrun.report_shape he
    exact Prod.ext hframe htimestamp
  obtain ⟨r, hrun⟩ := h.run
  obtain ⟨r', hrun'⟩ := h.run'
  rw [StepReport.records_stamps, StepReport.records_stamps, List.map_reverse, List.map_reverse,
    hstamps hrun, hstamps hrun', h.frames, List.map_map, List.map_map]
  rfl

theorem Omitted.records_eq (h : Omitted s drop past past')
    (hcolumns : ∀ n m hist hist', s.get? n = some m →
      Omitted.Field (drop n) n m past past' hist hist' → Track.column hist' = Track.column hist) :
    StepReport.records (past'.map (·.2)).reverse = StepReport.records (past.map (·.2)).reverse := by
  obtain ⟨r, hrun⟩ := h.run
  obtain ⟨r', hrun'⟩ := h.run'
  refine CorrectedState.eq_of_cells hrun'.records_full hrun.records_full h.stamps fun n hn => ?_
  obtain ⟨m, hm⟩ := ModelSet.mem_names_iff.mp hn
  obtain ⟨hist, hist', hfield⟩ := h.field hm
  rw [hrun.cells hfield.share, hrun'.cells hfield.share', hcolumns n m hist hist' hm hfield]

end Reconciler

def Discard.listed (ds : List (String × Discard)) (n : String) (frame : Nat) : Bool :=
  ds.any fun d => d.1 = n && d.2.frame = frame

theorem Discard.exists_of_listed {ds : List (String × Discard)} {n : String} {g : Nat}
    (h : listed ds n g = true) : ∃ d, (n, d) ∈ ds ∧ d.frame = g := by
  obtain ⟨⟨k, d⟩, hd, heq⟩ := List.any_eq_true.mp h
  simp only [Bool.and_eq_true, decide_eq_true_eq] at heq
  obtain ⟨rfl, rfl⟩ := heq
  exact ⟨d, hd, rfl⟩

namespace TimelineBuilder.Assembled

variable {s : ModelSet} {frames rest rest' : List RawFrame}
  {past past' : List (RawFrame × StepReport)} {r r' : Reconciler} {t t' : Timeline}
  {quality quality' : QualityReport} {n : String} {m : FieldModel}
  {drop : String → Nat → Bool} {ds : List (String × Discard)}

theorem spares (h : Assembled s frames past r rest t quality)
    (hds : ∀ d ∈ ds, d ∈ (Reconciler.new s).discards frames) :
    Reconciler.Spares s (Discard.listed ds) past := by
  intro n m hm
  obtain ⟨track, hist, htrack, hrun, hshare⟩ := h.run.field hm
  refine ⟨track, hist, hrun, hshare, fun g hg => Bool.eq_false_iff.mpr fun hlisted => ?_⟩
  obtain ⟨d, hd, hframe⟩ := Discard.exists_of_listed hlisted
  have hlost := (h.mem_discards_iff hshare htrack).mp (hds _ hd)
  exact hrun.not_lost_of_proven (ModelSet.validate_of_get? hm) hg d hlost hframe

theorem timeline_eq_of_records (h : Assembled s frames past r rest t quality)
    (h' : Assembled s (frames.map (·.without drop)) past' r' rest' t' quality')
    (hrest : rest' = rest.map (·.without drop))
    (hrecords : StepReport.records (past'.map (·.2)).reverse =
      StepReport.records (past.map (·.2)).reverse) : t' = t := by
  have hlast : StepReport.lastFields (past'.map (·.2)).reverse =
      StepReport.lastFields (past.map (·.2)).reverse := by
    rw [StepReport.lastFields_of_records, StepReport.lastFields_of_records, hrecords]
  have hlist : t'.toList = t.toList := by
    rw [h.states, h'.states, hrecords, hlast, hrest, List.map_map]
    rfl
  cases t
  cases t'
  exact congrArg Timeline.mk (Array.toList_inj.mp hlist)

end TimelineBuilder.Assembled

theorem assemble_omitted {s : ModelSet} {frames : List RawFrame} {t : Timeline}
    {quality : QualityReport} {ds : List (String × Discard)}
    (h : assemble s frames = .ok (t, quality))
    (hds : ∀ d ∈ ds, d ∈ (Reconciler.new s).discards frames) :
    ∃ past r rest past' r' t' quality', TimelineBuilder.Assembled s frames past r rest t quality ∧
      assemble s (frames.map (·.without (Discard.listed ds))) = .ok (t', quality') ∧
      TimelineBuilder.Assembled s (frames.map (·.without (Discard.listed ds))) past' r'
        (rest.map (·.without (Discard.listed ds))) t' quality' ∧
      Reconciler.Omitted s (Discard.listed ds) past past' ∧
      quality'.frozenAt = quality.frozenAt := by
  obtain ⟨past, r, rest, hall⟩ := TimelineBuilder.assembled h
  have hadm := (assemble_ok_iff_admissible.mp ⟨t, quality, h⟩).without (Discard.listed ds)
  obtain ⟨t', quality', h'⟩ := assemble_ok_iff_admissible.mpr hadm
  obtain ⟨past', r', rest', hall'⟩ := TimelineBuilder.assembled h'
  obtain ⟨homitted, rfl⟩ := hall.omitted hall' (hall.spares hds)
  exact ⟨past, r, rest, past', r', t', quality', hall, h', hall', homitted,
    hall.frozenAt_omitted hall' homitted⟩

theorem assemble_inert {s : ModelSet} {frames : List RawFrame} {t : Timeline}
    {quality : QualityReport} (h : assemble s frames = .ok (t, quality)) :
    ∃ quality', assemble s (frames.map (·.without (Discard.listed
        (((Reconciler.new s).discards frames).filter (·.2.reason ≠ .suspectSuperseded))))) =
          .ok (t, quality') ∧ quality'.frozenAt = quality.frozenAt := by
  obtain ⟨past, r, rest, past', r', t', quality', hall, h', hall', homitted, hfrozen⟩ :=
    assemble_omitted h (List.filter_sublist (p := (·.2.reason ≠ .suspectSuperseded))).subset
  have hrecords := homitted.records_eq fun n m hist hist' hm hfield => by
    have hvalid := ModelSet.validate_of_get? hm
    obtain ⟨track, hrun⟩ := hfield.run
    obtain ⟨track', hrun'⟩ := hfield.run'
    have htrack := hall.run.track_of_share hm hrun hfield.share
    refine hrun.column_inert hvalid hrun' hfield.observations hfield.spared ?_
    -- no reading is given up twice, for two reasons
    intro d hd hreason
    refine Bool.eq_false_iff.mpr fun hlisted => ?_
    obtain ⟨d', hd', hframe⟩ := Discard.exists_of_listed hlisted
    obtain ⟨hmem, hother⟩ := List.mem_filter.mp hd'
    have hlost := (hall.mem_discards_iff hfield.share htrack).mp hmem
    obtain rfl := hrun.lost_once hvalid hlost (List.mem_append_left _ hd) hframe
    exact of_decide_eq_true hother hreason
  obtain rfl := hall.timeline_eq_of_records hall' rfl hrecords
  exact ⟨quality', h', hfrozen⟩

theorem assemble_inert_gold : ∃ t quality quality',
    assemble (.single (.new "gold" .nonNegative (.nonDecreasing (some 1))) rfl)
        [.showing 0 "gold" 5, .showing 1 "gold" 9, .showing 2 "gold" 3, .new 3 0,
          .showing 4 "gold" 6, .showing 5 "gold" 8] = .ok (t, quality) ∧
      ((Reconciler.new (.single (.new "gold" .nonNegative (.nonDecreasing (some 1))) rfl)).discards
        [.showing 0 "gold" 5, .showing 1 "gold" 9, .showing 2 "gold" 3, .new 3 0,
          .showing 4 "gold" 6, .showing 5 "gold" 8]).map (fun d => (d.2.frame, d.2.reason)) =
            [(2, .rejected), (1, .suspectExpired), (5, .suspectExpired)] ∧
      t.series "gold" = [some (.int 5), some (.int 5), some (.int 5), some (.int 5),
        some (.int 6), some (.int 6)] ∧
      assemble (.single (.new "gold" .nonNegative (.nonDecreasing (some 1))) rfl)
        [.showing 0 "gold" 5, (RawFrame.new 1 0).withReading "gold" none,
          (RawFrame.new 2 0).withReading "gold" none, .new 3 0, .showing 4 "gold" 6,
          (RawFrame.new 5 0).withReading "gold" none] = .ok (t, quality') ∧
      quality'.frozenAt = quality.frozenAt := by
  have hrun : ∃ t quality,
      assemble (.single (.new "gold" .nonNegative (.nonDecreasing (some 1))) rfl)
        [.showing 0 "gold" 5, .showing 1 "gold" 9, .showing 2 "gold" 3, .new 3 0,
          .showing 4 "gold" 6, .showing 5 "gold" 8] = .ok (t, quality) ∧
      t.series "gold" = [some (.int 5), some (.int 5), some (.int 5), some (.int 5),
        some (.int 6), some (.int 6)] := ⟨_, _, rfl, rfl⟩
  obtain ⟨t, quality, h, hseries⟩ := hrun
  obtain ⟨quality', h', hfrozen⟩ := assemble_inert h
  exact ⟨t, quality, quality', h, rfl, hseries, h', hfrozen⟩

end GameTimeline
