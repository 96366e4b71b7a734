import GameTimeline.Proofs.Timeline.Conservation

namespace GameTimeline

theorem FieldQuality.take_unresolvedFrames (q : FieldQuality) (st : FieldStep) (frames : Nat) :
    (q.take st frames).unresolvedFrames =
      q.unresolvedFrames + if st.value.isNone then 1 else 0 := by
  rw [take, addUnresolved_eq]
  cases st.outcome <;> rfl

namespace Track

variable {m : FieldModel} {past : List (Observation × FieldStep)} {t : Track} {o : Observation}
  {x : (Observation × FieldStep) × Cell}

theorem Run.revise_isNone (hm : m.validate = .ok ()) (h : Run m past t)
    (hseq : o.seq = past.length + 1) (hprev : o.previousFrame = past.head?.map (·.1.frame))
    (hhead : ∀ e ∈ past.head?, e.1.frame < o.frame) (hx : x ∈ finals past) :
    (x.2.revise (t.step o).2).value.isNone = x.2.value.isNone := by
  have hframe := frame_of_mem_finals hx
  cases htouched : (t.step o).2.touches x.1.1.frame with
  | false => rw [Cell.revise_of_not_touched (hframe ▸ htouched)]
  | true =>
      obtain ⟨v, a, -, -, hsince⟩ := h.touched_since hm hseq hprev hhead hx htouched
      obtain ⟨rev, hrev, -⟩ := (Option.any_eq_true ..).mp htouched
      rw [Cell.revise_of_touched hrev (hframe ▸ htouched), hsince.value]
      rfl

theorem Run.unresolved (hm : m.validate = .ok ()) (h : Run m past t) :
    (tally past).unresolvedFrames = (finals past).countP (·.2.value.isNone) := by
  induction h with
  | start => rfl
  | @step past t o hrun hseq hprev hhead ih =>
      have hold : (finals past).countP (fun x => (x.2.revise (t.step o).2).value.isNone) =
          (finals past).countP (·.2.value.isNone) :=
        List.countP_congr fun x hx => by rw [hrun.revise_isNone hm hseq hprev hhead hx]
      rw [tally, FieldQuality.take_unresolvedFrames, ih, finals, List.countP_cons, List.countP_map,
        ← hold]
      rfl

end Track

namespace TimelineBuilder.Assembled

variable {s : ModelSet} {frames rest : List RawFrame} {past : List (RawFrame × StepReport)}
  {r : Reconciler} {t : Timeline} {quality : QualityReport} {n : String} {m : FieldModel}
  {hist : List (Observation × FieldStep)} {track : Track} {q : FieldQuality}

theorem countP_after (h : Assembled s frames past r rest t quality)
    (hord : frames.Pairwise (·.frame < ·.frame)) :
    t.toList.countP (!quality.plays ·.frame) = rest.length := by
  have hsplit := t.toList.length_eq_countP_add_countP (quality.plays ·.frame)
  have hlength := congrArg List.length h.states
  rw [List.length_append, List.length_map] at hlength
  rw [List.countP_eq_length_filter, h.filter_states hord] at hsplit
  simp only [Bool.not_eq_true, Bool.decide_eq_false] at hsplit
  omega

theorem unresolved_played (h : Assembled s frames past r rest t quality)
    (hm : s.get? n = some m) : ∃ q, quality.fields.get? n = some q ∧
      q.unresolvedFrames =
        (StepReport.records (past.map (·.2)).reverse).countP fun x => (x.value n).isNone := by
  obtain ⟨track, hist, ht, hfield, hshare⟩ := h.run.field hm
  have hcells := congrArg (List.countP (·.value.isNone)) (h.run.cells hshare)
  rw [List.countP_map, List.countP_reverse, Track.column, List.countP_map] at hcells
  refine ⟨_, h.field n m track hist hm ht hshare, ?_⟩
  exact (hfield.unresolved (ModelSet.validate_of_get? hm)).trans hcells.symm

theorem account (h : Assembled s frames past r rest t quality) (hm : s.get? n = some m) :
    ∃ last, Account m n (past.map (·.1)) (StepReport.records (past.map (·.2)).reverse) last ∧
      ∀ f ∈ rest,
        (replay f (StepReport.lastFields (past.map (·.2)).reverse)).value n = last := by
  obtain ⟨front, back, hstates, hup⟩ := h.run.upheld hm fun e he => List.mem_map_of_mem he
  have haccount := hup.whole
  rw [← hstates] at haccount
  refine ⟨_, haccount, fun f hf => ?_⟩
  obtain ⟨e, he, -⟩ := h.ends (List.ne_nil_of_mem hf)
  obtain ⟨older, rfl⟩ := List.head?_eq_some_iff.mp he
  have hreports : ((e :: older).map (·.2)).reverse = (older.map (·.2)).reverse ++ [e.2] := by simp
  rw [hreports, StepReport.records_concat] at haccount
  rw [hreports, StepReport.lastFields_concat]
  have hvalue : e.2.record.value n = _ := haccount.last_value List.getLast?_concat
  exact hvalue

theorem series_eq (h : Assembled s frames past r rest t quality) {last : Reading}
    (hlast : ∀ f ∈ rest,
      (replay f (StepReport.lastFields (past.map (·.2)).reverse)).value n = last) :
    t.series n = (StepReport.records (past.map (·.2)).reverse).map (·.value n) ++
      List.replicate rest.length last := by
  have hafter : (rest.map (replay · (StepReport.lastFields (past.map (·.2)).reverse))).map
      (·.value n) = List.replicate rest.length last := by
    rw [List.map_map]
    exact List.eq_replicate_iff.mpr ⟨List.length_map _, by simpa using hlast⟩
  rw [Timeline.series, h.states, List.map_append, hafter]

theorem stays (h : Assembled s frames past r rest t quality) (hm : s.get? n = some m) :
    (t.series n).Pairwise fun x y => x ≠ none → y ≠ none := by
  obtain ⟨last, haccount, hlast⟩ := h.account hm
  obtain ⟨hgame, hnone⟩ := haccount.stays
  rw [h.series_eq hlast]
  refine List.pairwise_append.mpr ⟨List.pairwise_map.mpr hgame,
    List.pairwise_replicate.mpr (.inr id), fun x hx y hy hsome hy' => ?_⟩
  obtain ⟨z, hz, rfl⟩ := List.mem_map.mp hx
  rw [List.eq_of_mem_replicate hy] at hy'
  exact hsome (hnone hy' z hz)

end TimelineBuilder.Assembled

theorem assemble_unresolved {s : ModelSet} {frames : List RawFrame} {t : Timeline}
    {quality : QualityReport} {n : String} {m : FieldModel}
    (h : assemble s frames = .ok (t, quality)) (hm : s.get? n = some m) :
    ∃ q, quality.fields.get? n = some q ∧
      q.unresolvedFrames =
        (t.toList.filter (quality.plays ·.frame)).countP (fun x => (x.value n).isNone) ∧
      (t.series n).countP Option.isNone = ((t.series n).takeWhile Option.isNone).length ∧
      (t.series n).countP Option.isNone = q.unresolvedFrames +
        if (t.series n).all Option.isNone then t.toList.countP (!quality.plays ·.frame) else 0 := by
  have hord := (assemble_ok_iff_admissible.mp ⟨t, quality, h⟩).ordered
  obtain ⟨past, r, rest, hall⟩ := TimelineBuilder.assembled h
  have hgame := hall.filter_states hord
  obtain ⟨q, hq, hunresolved⟩ := hall.unresolved_played hm
  obtain ⟨last, haccount, hlast⟩ := hall.account hm
  refine ⟨q, hq, hgame ▸ hunresolved, countP_isNone_eq_length_takeWhile (hall.stays hm), ?_⟩
  rw [hall.series_eq hlast, hall.countP_after hord, List.countP_append, List.countP_map,
    hunresolved]
  refine congrArg _ ?_
  cases last with
  | none =>
      -- a field that is unknown at the end of the game has been so all along
      have hnone := haccount.stays.2 rfl
      rw [if_pos]
      · simp [List.countP_replicate]
      · simpa using hnone
  | some v =>
      have hzero : (List.replicate rest.length (some v)).countP Option.isNone = 0 := by
        simp [List.countP_replicate]
      rw [hzero]
      split
      · rename_i hnone
        cases hrest : rest.length with
        | zero => rfl
        | succ k => simp [hrest] at hnone
      · rfl

theorem assemble_unresolved_gold : ∃ s t quality q,
    ModelSet.ofList [.counter "gold",
        { FieldModel.counter "xp" with terminal := some (.int 7) }] = .ok s ∧
      assemble s [.new 0 0, .showing 1 "gold" 5, .showing 2 "xp" 7, .new 3 0] =
        .ok (t, quality) ∧
      t.series "gold" = [none, some (.int 5), some (.int 5), some (.int 5)] ∧
      quality.fields.get? "gold" = some q ∧
      (t.series "gold").countP Option.isNone = q.unresolvedFrames := by
  have hrun : ∃ s t quality,
      ModelSet.ofList [.counter "gold",
          { FieldModel.counter "xp" with terminal := some (.int 7) }] = .ok s ∧
        s.get? "gold" = some (.counter "gold") ∧
        assemble s [.new 0 0, .showing 1 "gold" 5, .showing 2 "xp" 7, .new 3 0] =
          .ok (t, quality) ∧
        t.series "gold" = [none, some (.int 5), some (.int 5), some (.int 5)] :=
    ⟨_, _, _, rfl, rfl, rfl, rfl⟩
  obtain ⟨s, t, quality, hs, hm, h, hseries⟩ := hrun
  obtain ⟨q, hq, -, -, hcount⟩ := assemble_unresolved h hm
  refine ⟨s, t, quality, q, hs, h, hseries, hq, hcount.trans ?_⟩
  rw [hseries]
  rfl

/-- A record after the game lacks a value, and the report does not count it. -/
theorem unresolved_after_game : ∃ s t quality q,
    ModelSet.ofList [.counter "gold",
        { FieldModel.counter "xp" with terminal := some (.int 7) }] = .ok s ∧
      assemble s [.showing 0 "xp" 7, .new 1 0] = .ok (t, quality) ∧
      quality.fields.get? "gold" = some q ∧ t.series "gold" = [none, none] ∧
      q.unresolvedFrames = 1 ∧ q.unresolvedFrames ≠ (t.series "gold").countP Option.isNone := by
  have hrun : ∃ s t quality q,
      ModelSet.ofList [.counter "gold",
          { FieldModel.counter "xp" with terminal := some (.int 7) }] = .ok s ∧
        assemble s [.showing 0 "xp" 7, .new 1 0] = .ok (t, quality) ∧
        quality.fields.get? "gold" = some q ∧ t.series "gold" = [none, none] ∧
        q.unresolvedFrames = 1 := ⟨_, _, _, _, rfl, rfl, rfl, rfl, rfl⟩
  obtain ⟨s, t, quality, q, hs, h, hq, hseries, hone⟩ := hrun
  refine ⟨s, t, quality, q, hs, h, hq, hseries, hone, ?_⟩
  rw [hone, hseries]
  decide

end GameTimeline
