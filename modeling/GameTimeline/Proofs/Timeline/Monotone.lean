import GameTimeline.Proofs.Timeline.Emission
import GameTimeline.Proofs.Timeline.Record
import Mathlib.Data.List.ReduceOption

namespace GameTimeline

structure Ascending (m : FieldModel) (n : String) (states : List CorrectedState) (top : Reading) :
    Prop where
  ranked : ∀ v, top = some v → m.domain.AtMost v v
  pairs : states.Pairwise fun x y =>
    ∀ u v, x.value n = some u → y.value n = some v → m.domain.AtMost u v
  below : ∀ x ∈ states, ∀ u, x.value n = some u → ∃ v, top = some v ∧ m.domain.AtMost u v

namespace Ascending

variable {m : FieldModel} {n : String} {states : List CorrectedState} {top top' : Reading}
  {es : List (String × Revision)} {x : CorrectedState}

theorem rise (h : Ascending m n states top) (hranked : ∀ v, top' = some v → m.domain.AtMost v v)
    (htop : ∀ p, top = some p → ∃ c, top' = some c ∧ m.domain.AtMost p c) :
    Ascending m n states top' where
  ranked := hranked
  pairs := h.pairs
  below := by
    intro x hx u hu
    obtain ⟨p, hp, hup⟩ := h.below x hx u hu
    obtain ⟨c, hc, hpc⟩ := htop p hp
    exact ⟨c, hc, hup.trans hpc⟩

theorem concat (h : Ascending m n states top) (hx : x.value n = top) :
    Ascending m n (states ++ [x]) top where
  ranked := h.ranked
  pairs := by
    refine List.pairwise_append.mpr ⟨h.pairs, List.pairwise_singleton .., ?_⟩
    intro y hy z hz u v hu hv
    rw [List.mem_singleton.mp hz, hx] at hv
    obtain ⟨w, hw, hle⟩ := h.below y hy u hu
    obtain rfl := Option.some.inj (hv.symm.trans hw)
    exact hle
  below := by
    intro y hy u hu
    rcases List.mem_append.mp hy with hold | hnew
    · exact h.below y hold u hu
    · rw [List.mem_singleton.mp hnew, hx] at hu
      exact ⟨u, hu, h.ranked u hu⟩

theorem revised (h : Ascending m n states top)
    (hord : states.Pairwise (·.frame < ·.frame))
    (hes : ∀ rev, (n, rev) ∈ es → top = some rev.value ∧ ∀ x ∈ states, x.frame ≤ rev.last) :
    Ascending m n (states.map (·.reviseAll es)) top := by
  have hvalue := CorrectedState.value_reviseAll fun rev hrev => (hes rev hrev).1
  have hbelow : ∀ x ∈ states, ∀ u, (x.reviseAll es).value n = some u →
      ∃ v, top = some v ∧ m.domain.AtMost u v := by
    intro x hx u hu
    rw [hvalue x] at hu
    split at hu
    · exact ⟨u, hu, h.ranked u hu⟩
    · exact h.below x hx u hu
  refine ⟨h.ranked, List.pairwise_map.mpr ?_, ?_⟩
  · refine (h.pairs.and hord).imp_of_mem fun {x y} hx hy hxy u v hu hv => ?_
    obtain ⟨hpair, hlt⟩ := hxy
    obtain ⟨w, hw, hux⟩ := hbelow x hx u hu
    rw [hvalue y] at hv
    split at hv
    · obtain rfl := Option.some.inj (hv.symm.trans hw)
      exact hux
    · rename_i hout
      -- what reaches a record reaches all records after it
      have hout' : ¬ CorrectedState.reached n es x.frame = true := by
        intro hreach
        obtain ⟨⟨k, rev⟩, hmem, hk⟩ := List.any_eq_true.mp hreach
        obtain ⟨rfl, hfirst, -⟩ := by simpa [Revision.covers] using hk
        have hlast := (hes rev hmem).2 y hy
        have hfirst' : rev.first ≤ y.frame := hfirst.trans (Nat.le_of_lt hlt)
        refine hout (List.any_eq_true.mpr ⟨(k, rev), hmem, ?_⟩)
        simp [Revision.covers, hfirst', hlast]
      rw [hvalue x, if_neg hout'] at hu
      exact hpair u v hu hv
  · intro x hx u hu
    obtain ⟨y, hy, rfl⟩ := List.mem_map.mp hx
    exact hbelow y hy u hu

theorem replayed {values : Table Reading} (h : Ascending m n states top)
    (hvalues : (values.get? n).join = top) (rest : List RawFrame) :
    Ascending m n (states ++ rest.map (TimelineBuilder.replay · values)) top := by
  induction rest generalizing states with
  | nil => simpa using h
  | cons f rest ih =>
      rw [List.map_cons, List.append_cons]
      exact ih (h.concat hvalues)

theorem series (h : Ascending m n states top) :
    ∃ ranks : List Int, ((states.map (·.value n)).reduceOption).map m.domain.rank? =
      ranks.map some ∧ ranks.Pairwise (· ≤ ·) := by
  refine Domain.ranks_of_pairwise ?_ ?_
  · intro u hu
    obtain ⟨x, hx, hxu⟩ := List.mem_map.mp (List.reduceOption_mem_iff.mp hu)
    obtain ⟨v, -, hle⟩ := h.below x hx u hxu
    exact hle.left
  · rw [List.reduceOption, List.pairwise_filterMap, List.pairwise_map]
    exact h.pairs.imp fun hxy u hu v hv => hxy u v hu hv

end Ascending

namespace Reconciler

variable {s : ModelSet} {past : List (RawFrame × StepReport)} {r : Reconciler} {n : String}
  {m : FieldModel} {b : Option Int64}

theorem revision_lifts {r' : Reconciler} {f : RawFrame} {report : StepReport} {t : Track}
    (hrun : Run s past r) (hstep : r.step f = .ok (r', report)) (ht : r.tracks.get? n = some t)
    {rev : Revision} (hrev : (n, rev) ∈ report.revisions) :
    (t.step (r.observation f n)).2.value = some rev.value ∧
      ∀ x ∈ StepReport.records (past.map (·.2)).reverse, x.frame ≤ rev.last := by
  obtain ⟨t', ht', hrevises⟩ := revises_of_mem hrun hstep hrev
  obtain rfl : t = t' := Option.some.inj (ht.symm.trans ht')
  refine ⟨hrevises.value, fun x hx => ?_⟩
  obtain ⟨last, hlast, hle⟩ := hrun.frame_le_last hx
  obtain rfl := Option.some.inj (hlast.symm.trans hrevises.last)
  exact hle

theorem Run.ascending (h : Run s past r) (hm : s.get? n = some m)
    (hb : m.monotonicity = .nonDecreasing b) :
    ∃ t, r.tracks.get? n = some t ∧
      Ascending m n (StepReport.records (past.map (·.2)).reverse) t.current.value := by
  have hvalid := ModelSet.validate_of_get? hm
  have hself {v : FieldValue} (hv : m.domain.Member v) : m.domain.AtMost v v :=
    Domain.atMost_refl (FieldModel.ordered_of_nonDecreasing hvalid hb) hv
  induction h with
  | start =>
      obtain ⟨t, hist, ht, hfield, -⟩ := (Run.start (s := s)).field hm
      refine ⟨t, ht, ?_, .nil, fun x hx => nomatch hx⟩
      exact fun v hv => hself ((hfield.explained hvalid).member_value hv)
  | @step past r r' f report hrun hstep ih =>
      obtain ⟨t, ht, hasc⟩ := ih
      obtain ⟨hist, hfield, hshare⟩ := hrun.fieldAt hm ht
      have hst := stepped_of_step hstep
      have hex := hfield.explained hvalid
      have hseq := hrun.observation_seq hshare f
      have hvalue := hex.step_value hvalid hseq
      have hranked : ∀ v, (t.step (r.observation f n)).1.current.value = some v →
          m.domain.AtMost v v := fun v hv => hself ((hex.step hvalid hseq).member_value hv)
      have hrise := hasc.rise hranked fun p hp => hex.rises hvalid hseq hb hp
      have hrevised := hrise.revised hrun.records_ordered fun rev hrev =>
        (revision_lifts hrun hstep ht hrev).imp_left hvalue.symm.trans
      have hnew := (StepReport.record_value (hst.field ht)).trans hvalue
      refine ⟨_, hst.track ht, ?_⟩
      rw [List.map_cons, List.reverse_cons, StepReport.records_concat]
      exact hrevised.concat hnew
  | refused _ _ ih => exact ih

theorem Run.last_value (h : Run s past r) (hm : s.get? n = some m) (hne : past ≠ []) :
    ∃ t, r.tracks.get? n = some t ∧
      ((StepReport.lastFields (past.map (·.2)).reverse).get? n).join = t.current.value := by
  induction h with
  | start => exact absurd rfl hne
  | @step past r r' f report hrun hstep _ =>
      obtain ⟨t, hist, ht, hfield, hshare⟩ := hrun.field hm
      have hst := stepped_of_step hstep
      have hvalid := ModelSet.validate_of_get? hm
      have hseq := hrun.observation_seq hshare f
      refine ⟨_, hst.track ht, ?_⟩
      rw [List.map_cons, List.reverse_cons, StepReport.lastFields_concat]
      exact (StepReport.record_value (hst.field ht)).trans
        ((hfield.explained hvalid).step_value hvalid hseq)
  | refused _ _ ih => exact ih hne

end Reconciler

theorem assemble_nondecreasing {s : ModelSet} {frames : List RawFrame} {t : Timeline}
    {quality : QualityReport} {n : String} {m : FieldModel} {b : Option Int64}
    (h : assemble s frames = .ok (t, quality)) (hm : s.get? n = some m)
    (hb : m.monotonicity = .nonDecreasing b) :
    ∃ ranks : List Int, ((t.series n).reduceOption).map m.domain.rank? = ranks.map some ∧
      ranks.Pairwise (· ≤ ·) := by
  obtain ⟨reports, rest, hreports, ht⟩ := assemble_reports h
  obtain ⟨past, r, hrun, hpast, hrest⟩ := Reconciler.run_of_reports .start hreports
  obtain ⟨track, htrack, hasc⟩ := hrun.ascending hm hb
  have hrecords : (past.map (·.2)).reverse = reports := hpast
  rw [hrecords] at hasc
  rw [Timeline.series, ht]
  by_cases hnil : past = []
  · rw [hrest hnil, List.map_nil, List.append_nil]
    exact hasc.series
  · obtain ⟨track', htrack', hlast⟩ := hrun.last_value hm hnil
    obtain rfl : track = track' := Option.some.inj (htrack.symm.trans htrack')
    rw [hrecords] at hlast
    exact (hasc.replayed hlast rest).series

theorem assemble_nondecreasing_gold : ∃ t quality,
    assemble (.single (.new "gold" .nonNegative (.nonDecreasing (some 1))) rfl)
        [.showing 0 "gold" 5, .showing 1 "gold" 9, .showing 2 "gold" 9, .showing 3 "gold" 1] =
          .ok (t, quality) ∧
      t.series "gold" = [some (.int 5), some (.int 9), some (.int 9), some (.int 9)] ∧
      ∃ ranks : List Int, ((t.series "gold").reduceOption).map Domain.nonNegative.rank? =
        ranks.map some ∧ ranks.Pairwise (· ≤ ·) := by
  have hrun : ∃ t quality,
      assemble (.single (.new "gold" .nonNegative (.nonDecreasing (some 1))) rfl)
        [.showing 0 "gold" 5, .showing 1 "gold" 9, .showing 2 "gold" 9, .showing 3 "gold" 1] =
          .ok (t, quality) ∧
      t.series "gold" = [some (.int 5), some (.int 9), some (.int 9), some (.int 9)] :=
    ⟨_, _, rfl, rfl⟩
  obtain ⟨t, quality, h, hseries⟩ := hrun
  have hranks := assemble_nondecreasing h (n := "gold")
    (m := .new "gold" .nonNegative (.nonDecreasing (some 1))) rfl rfl
  exact ⟨t, quality, h, hseries, hranks⟩

end GameTimeline
