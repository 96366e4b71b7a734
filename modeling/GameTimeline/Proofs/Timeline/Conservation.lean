import GameTimeline.Proofs.Reconcile.Acceptance
import GameTimeline.Proofs.Timeline.Admission
import GameTimeline.Proofs.Timeline.Assembly
import GameTimeline.Proofs.Timeline.Ledger

namespace GameTimeline

def CorrectedState.restores (m : FieldModel) (n : String) (f : RawFrame) (x : CorrectedState) :
    Bool :=
  x.frame = f.frame && x.provenance.get? n = some .revised &&
    x.value n = (f.reading n).bind m.normalize

structure Accounts (m : FieldModel) (n : String) (q : FieldQuality)
    (past : List (RawFrame × StepReport)) (rest : List RawFrame) (states : List CorrectedState) :
    Prop where
  frames : q.accepted + q.confirmed + q.held + q.rejected + q.suspect + q.lowConfidence =
    past.length
  readings : q.accepted + q.confirmed + q.rejected + q.suspect + q.lowConfidence =
    past.countP fun e => (e.1.reading n).isSome
  ignored : q.ignoredAfterFreeze = rest.countP fun f => (f.reading n).isSome
  observed : q.accepted + q.confirmed = states.countP (·.provenance.get? n = some .observed)
  revised : q.revisedFrames = states.countP (·.provenance.get? n = some .revised)
  suspects : q.suspect = q.suspectExpired + q.suspectSuperseded +
    past.countP fun e => e.2.outcome? n = some .suspect && states.any (·.restores m n e.1)

namespace Track

variable {m : FieldModel} {past : List (Observation × FieldStep)} {t : Track}
  {e : Observation × FieldStep} {x y : (Observation × FieldStep) × Cell}

theorem tally_ignored (past : List (Observation × FieldStep)) :
    (tally past).ignoredAfterFreeze = 0 := by
  induction past with
  | nil => rfl
  | cons e past ih =>
      rw [tally, FieldQuality.take, FieldQuality.addUnresolved_eq]
      cases e.2.outcome <;> exact ih

theorem Run.shown_of_suspect (hm : m.validate = .ok ()) (h : Run m past t) :
    ∀ e ∈ past, e.2.outcome = .suspect → ∃ c, m.shown e.1.reading e.1.confidence = some c := by
  induction h with
  | start => exact fun _ he => nomatch he
  | step hrun hseq _ _ ih =>
      intro e he hs
      rcases List.mem_cons.mp he with rfl | he
      · obtain ⟨st, hresolves, hst⟩ := hrun.resolves hm hseq
        rw [hst] at hs
        generalize (Track.step _ _).1.current = b' at hresolves
        cases hresolves with
        | joined hshown _ => exact ⟨_, hshown⟩
        | absent _ => cases hs
        | faint _ _ => cases hs
        | stray _ _ _ => cases hs
        | refused _ _ => cases hs
        | accepted _ _ => cases hs
        | confirmed _ _ => cases hs
      · exact ih e he hs

theorem finals_frames (past : List (Observation × FieldStep)) :
    (finals past).map (·.2.frame) = past.map (·.1.frame) := by
  rw [← column_frames, column, List.map_map]
  rfl

theorem Run.final_unique (h : Run m past t) (hx : x ∈ finals past) (hy : y ∈ finals past)
    (hframe : x.2.frame = y.2.frame) : x = y := by
  have hnodup : ((finals past).map (·.2.frame)).Nodup := by
    rw [finals_frames]
    exact (List.pairwise_map.mpr h.frames).imp fun hgt => Nat.ne_of_gt hgt
  exact List.inj_on_of_nodup_map hnodup hx hy hframe

end Track

theorem Reconciler.finals_share {past : List (RawFrame × StepReport)} {n : String}
    {hist : List (Observation × FieldStep)} (hshare : List.Forall₂ (Share n) past hist) :
    List.Forall₂ (fun x e => x ∈ Track.finals hist ∧ Share n e x.1) (Track.finals hist) past := by
  rw [← Track.finals_map_fst hist] at hshare
  have hfinals : List.Forall₂ (fun e x => Share n e x.1) past (Track.finals hist) :=
    List.forall₂_map_right_iff.mp hshare
  exact (List.forall₂_and_left _ _).mpr ⟨fun _ hx => hx, hfinals.flip⟩

theorem TimelineBuilder.replay_tag {f : RawFrame} {values : Table Reading} {n : String}
    {p : Provenance} (h : (replay f values).provenance.get? n = some p) : p = .frozen := by
  rw [replay, Table.get?_map] at h
  obtain ⟨-, -, rfl⟩ := Option.map_eq_some_iff.mp h
  rfl

namespace TimelineBuilder.Assembled

variable {s : ModelSet} {frames rest : List RawFrame} {past : List (RawFrame × StepReport)}
  {r : Reconciler} {t : Timeline} {quality : QualityReport} {n : String} {m : FieldModel}
  {hist : List (Observation × FieldStep)} {track : Track} {p : Provenance} {frame : Nat}
  {v : Reading}

theorem countP_tag (h : Assembled s frames past r rest t quality)
    (hshare : List.Forall₂ (Reconciler.Share n) past hist) (hp : p ≠ .frozen) :
    t.toList.countP (·.provenance.get? n = some p) =
      (Track.finals hist).countP (·.2.tag = some p) := by
  have hcells := congrArg (List.countP (·.tag = some p)) (h.run.cells hshare)
  rw [List.countP_map, List.countP_reverse, Track.column, List.countP_map] at hcells
  have hafter : (rest.map (replay · (StepReport.lastFields (past.map (·.2)).reverse))).countP
      (·.provenance.get? n = some p) = 0 := by
    refine List.countP_eq_zero.mpr fun x hx => ?_
    obtain ⟨f, -, rfl⟩ := List.mem_map.mp hx
    exact fun htag => hp (replay_tag (of_decide_eq_true htag))
  rw [h.states, List.countP_append, hafter, Nat.add_zero]
  exact hcells

theorem exists_shows_iff (h : Assembled s frames past r rest t quality)
    (hshare : List.Forall₂ (Reconciler.Share n) past hist) (hp : p ≠ .frozen) :
    (∃ y ∈ t.toList, y.frame = frame ∧ y.Shows n p v) ↔
      ∃ x ∈ Track.finals hist, x.2 = ⟨frame, v, some p⟩ := by
  have hcells := h.run.cells hshare
  constructor
  · rintro ⟨y, hy, rfl, htag, rfl⟩
    rw [h.states] at hy
    rcases List.mem_append.mp hy with hy | hy
    · have hcell : y.cell n ∈ Track.column hist := by
        rw [← List.mem_reverse, ← hcells]
        exact List.mem_map_of_mem hy
      obtain ⟨x, hx, hxc⟩ := List.mem_map.mp hcell
      exact ⟨x, hx, by rw [hxc, CorrectedState.cell, htag]⟩
    · obtain ⟨f, -, rfl⟩ := List.mem_map.mp hy
      exact absurd (replay_tag htag) hp
  · rintro ⟨x, hx, hcell⟩
    have hmem : x.2 ∈ (StepReport.records (past.map (·.2)).reverse).map (·.cell n) := by
      rw [hcells, List.mem_reverse]
      exact List.mem_map_of_mem hx
    obtain ⟨y, hy, hyc⟩ := List.mem_map.mp hmem
    obtain ⟨hframe, hvalue, htag⟩ := Cell.mk.inj (hyc.trans hcell)
    refine ⟨y, ?_, hframe, htag, hvalue⟩
    rw [h.states]
    exact List.mem_append_left _ hy

theorem any_restores (h : Assembled s frames past r rest t quality)
    (hshare : List.Forall₂ (Reconciler.Share n) past hist) (hfield : Track.Run m hist track)
    {e : RawFrame × StepReport} {x : (Observation × FieldStep) × Cell}
    (hx : x ∈ Track.finals hist) (hs : Reconciler.Share n e x.1) :
    t.toList.any (·.restores m n e.1) = true ↔
      x.2.tag = some .revised ∧ x.2.value = (e.1.reading n).bind m.normalize := by
  have hframe : x.2.frame = e.1.frame := (Track.frame_of_mem_finals hx).trans hs.frame
  have hany : t.toList.any (·.restores m n e.1) = true ↔ ∃ y ∈ t.toList, y.frame = e.1.frame ∧
      y.Shows n .revised ((e.1.reading n).bind m.normalize) := by
    simp [CorrectedState.restores, CorrectedState.Shows, and_assoc]
  rw [hany, h.exists_shows_iff hshare (by decide)]
  constructor
  · rintro ⟨z, hz, hcell⟩
    obtain rfl := hfield.final_unique hz hx (by rw [hcell, hframe])
    rw [hcell]
    exact ⟨rfl, rfl⟩
  · rintro ⟨htag, hvalue⟩
    exact ⟨x, hx, by rw [← hframe, ← hvalue, ← htag]⟩

theorem countP_restored (h : Assembled s frames past r rest t quality)
    (hshare : List.Forall₂ (Reconciler.Share n) past hist) (hm : m.validate = .ok ())
    (hfield : Track.Run m hist track) :
    past.countP (fun e => e.2.outcome? n = some .suspect && t.toList.any (·.restores m n e.1)) =
      (Track.finals hist).countP (Track.restored m) := by
  refine (countP_eq_of_forall₂ (Reconciler.finals_share hshare) ?_).symm
  rintro x e ⟨hx, hs⟩
  have houtcome : e.2.outcome? n = some x.1.2.outcome := by rw [StepReport.outcome?, hs.step]; rfl
  rw [Bool.eq_iff_iff, Track.restored]
  simp only [Bool.and_eq_true, decide_eq_true_eq, houtcome, Option.some.injEq,
    h.any_restores hshare hfield hx hs]
  constructor
  · rintro ⟨⟨hsuspect, htag⟩, hvalue⟩
    obtain ⟨c, hc⟩ := hfield.shown_of_suspect hm x.1 (Track.mem_of_mem_finals hx) hsuspect
    refine ⟨hsuspect, htag, ?_⟩
    rw [hvalue, hc, ← hs.reading]
    obtain ⟨-, raw, hraw, hn⟩ := FieldModel.shown_eq_some_iff.mp hc
    rw [hraw]
    exact hn.symm
  · rintro ⟨hsuspect, htag, hvalue⟩
    obtain ⟨c, hc⟩ := hfield.shown_of_suspect hm x.1 (Track.mem_of_mem_finals hx) hsuspect
    refine ⟨⟨hsuspect, htag⟩, ?_⟩
    obtain ⟨-, raw, hraw, hn⟩ := FieldModel.shown_eq_some_iff.mp hc
    rw [hvalue, hc, ← hs.reading, hraw]
    exact hn

theorem accounts (h : Assembled s frames past r rest t quality) (hm : s.get? n = some m) :
    ∃ q, quality.fields.get? n = some q ∧ Accounts m n q past rest t.toList := by
  have hvalid := ModelSet.validate_of_get? hm
  obtain ⟨track, hist, ht, hfield, hshare⟩ := h.run.field hm
  have hledger := hfield.ledger hvalid
  have hreadings : past.countP (fun e => (e.1.reading n).isSome) =
      hist.countP (·.1.reading.isSome) :=
    countP_eq_of_forall₂ hshare fun e x hs => by rw [hs.reading]
  have hlength := hshare.length_eq
  have houtcomes := hledger.outcomes
  have hheld := hledger.readings
  rw [FieldQuality.outcomes] at houtcomes
  refine ⟨_, h.field n m track hist hm ht hshare, ?_, ?_, ?_, ?_, ?_, ?_⟩
  · rw [hlength]
    exact houtcomes
  · rw [hreadings]
    simp only [FieldQuality.ignore, FieldQuality.expire]
    omega
  · simp [FieldQuality.ignore, FieldQuality.expire, Track.tally_ignored]
  · rw [h.countP_tag hshare (by decide)]
    exact hledger.observed
  · rw [h.countP_tag hshare (by decide)]
    exact hledger.revised
  · have hsuspects := hledger.suspects
    rw [h.countP_restored hshare hvalid hfield]
    simp only [FieldQuality.ignore, FieldQuality.expire]
    omega

end TimelineBuilder.Assembled

theorem assemble_accounts {s : ModelSet} {frames : List RawFrame} {t : Timeline}
    {quality : QualityReport} {n : String} {m : FieldModel}
    (h : assemble s frames = .ok (t, quality)) (hm : s.get? n = some m) :
    ∃ q past r, quality.fields.get? n = some q ∧ Reconciler.Run s past r ∧
      (past.map (·.1)).reverse = frames.filter (quality.plays ·.frame) ∧
      Accounts m n q past (frames.filter (!quality.plays ·.frame)) t.toList := by
  have hadmissible := assemble_ok_iff_admissible.mp ⟨t, quality, h⟩
  obtain ⟨past, r, rest, hall⟩ := TimelineBuilder.assembled h
  obtain ⟨hplayed, hrest⟩ := hall.filter_plays hadmissible.ordered
  obtain ⟨q, hq, haccounts⟩ := hall.accounts hm
  exact ⟨q, past, r, hq, hall.run, hplayed.symm, hrest.symm ▸ haccounts⟩

theorem assemble_accounts_gold : ∃ t quality q past,
    assemble (.single { FieldModel.boundedDelta "gold" 1 with terminal := some (.int 9) } rfl)
        [.showing 0 "gold" 5, .showing 1 "gold" 20, .showing 2 "gold" 9, .showing 3 "gold" 9,
          .showing 4 "gold" 1] = .ok (t, quality) ∧
      quality.fields.get? "gold" = some q ∧
      [q.accepted, q.confirmed, q.suspect, q.suspectSuperseded, q.revisedFrames,
        q.ignoredAfterFreeze] = [1, 1, 2, 1, 2, 1] ∧
      past.map (·.1.frame) = [3, 2, 1, 0] ∧
      Accounts { FieldModel.boundedDelta "gold" 1 with terminal := some (.int 9) } "gold" q past
        [.showing 4 "gold" 1] t.toList := by
  have hrun : ∃ t quality q,
      assemble (.single { FieldModel.boundedDelta "gold" 1 with terminal := some (.int 9) } rfl)
          [.showing 0 "gold" 5, .showing 1 "gold" 20, .showing 2 "gold" 9, .showing 3 "gold" 9,
            .showing 4 "gold" 1] = .ok (t, quality) ∧
        quality.frozenAt = some 3 ∧ quality.fields.get? "gold" = some q ∧
        [q.accepted, q.confirmed, q.suspect, q.suspectSuperseded, q.revisedFrames,
          q.ignoredAfterFreeze] = [1, 1, 2, 1, 2, 1] :=
    ⟨_, _, _, rfl, rfl, rfl, rfl⟩
  obtain ⟨t, quality, q, h, hfrozen, hq, hcounts⟩ := hrun
  obtain ⟨q', past, r, hq', -, hplayed, haccounts⟩ := assemble_accounts h (n := "gold") rfl
  obtain rfl := Option.some.inj (hq.symm.trans hq')
  rw [QualityReport.plays_of_frozen hfrozen] at hplayed haccounts
  have hframes := congrArg (List.map (·.frame)) hplayed
  rw [List.map_reverse, List.map_map, List.reverse_eq_iff] at hframes
  exact ⟨t, quality, q, past, h, hq, hcounts, hframes, haccounts⟩

end GameTimeline
