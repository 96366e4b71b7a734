import GameTimeline.Proofs.Reconcile.Reach

namespace GameTimeline

namespace Track

variable {m : FieldModel} {past : List (Observation × FieldStep)} {t : Track}

theorem countP_since_suspect (hord : past.Pairwise (·.1.frame > ·.1.frame)) {p : Pending}
    (hp : p ∈ suspects m past) :
    past.countP (p.frame ≤ ·.1.frame) + p.seq = past.length + 1 := by
  induction past with
  | nil => cases hp
  | cons e older ih =>
      obtain ⟨he, hrest⟩ := List.pairwise_cons.mp hord
      rw [List.countP_cons, List.length_cons]
      rcases mem_suspects_cons hp with hold | ⟨hframe, hseq⟩
      · obtain ⟨x, hx, hxp⟩ := frame_of_suspect hold
        have hle : p.frame ≤ e.1.frame := hxp ▸ Nat.le_of_lt (he x hx)
        have hcount := ih hrest hold
        simp only [hle, decide_true, if_true]
        omega
      · have hnone : older.countP (e.1.frame ≤ ·.1.frame) = 0 := by
          refine List.countP_eq_zero.mpr fun x hx => ?_
          simpa using he x hx
        rw [hframe, hnone, hseq]
        simp only [Nat.le_refl, decide_true, if_true]
        omega

end Track

namespace Reconciler

variable {s : ModelSet} {past : List (RawFrame × StepReport)} {r r' : Reconciler} {f : RawFrame}
  {report : StepReport} {n : String} {m : FieldModel} {rev : Revision}

theorem Run.countP_since (h : Run s past r) (hm : s.get? n = some m) {t : Track}
    (ht : r.tracks.get? n = some t) {p : Pending} (hp : p ∈ t.current.pending) :
    past.countP (p.frame ≤ ·.1.frame) + p.seq = past.length + 1 := by
  obtain ⟨hist, hfield, hshare⟩ := h.fieldAt hm ht
  have hex := hfield.explained (ModelSet.validate_of_get? hm)
  rw [hex.pending] at hp
  have hcount := Track.countP_since_suspect hfield.frames (List.mem_filter.mp hp).1
  rw [hshare.length_eq, ← hcount]
  congr 1
  exact countP_eq_of_forall₂ hshare fun e h hs => by rw [hs.frame]

structure Spans (r : Reconciler) (past : List (RawFrame × StepReport)) (m : FieldModel) (a : Nat)
    (rev : Revision) : Prop where
  after : a < rev.first
  last : r.lastFrame = some rev.last
  some_frame : 1 ≤ past.countP (rev.covers ·.1.frame)
  few_frames : past.countP (rev.covers ·.1.frame) ≤ m.window - 1

theorem Run.moves (h : Run s past r) (hm : s.get? n = some m) {t : Track}
    (ht : r.tracks.get? n = some t) (f : RawFrame) :
    Track.Moves m (r.observation f n) (t.current.expire m.window (r.seq + 1))
      (t.step (r.observation f n)).1.current (t.step (r.observation f n)).2 := by
  obtain ⟨hmodel, hstanding⟩ := h.sound.track n m t hm ht
  exact Track.moves hstanding.toWaiting (ModelSet.validate_of_get? hm) hmodel (Nat.lt_succ_self _)

theorem Run.spans (h : Run s past r) (hm : s.get? n = some m)
    (hstep : r.step f = .ok (r', report)) (hrev : (n, rev) ∈ report.revisions) :
    ∃ v a, r.accepted? n = some (v, a) ∧ Spans r past m a rev := by
  have hst := stepped_of_step hstep
  obtain ⟨t, ht, hrev⟩ := (mem_revisions_of_step hstep).mp hrev
  obtain ⟨-, hstanding⟩ := h.sound.track n m t hm ht
  obtain ⟨⟨p, hp, hfirst⟩, hlast, -, -⟩ := (h.moves hm ht f).revision hst.later hrev
  have hfresh := hstanding.toWaiting.fresh hp
  have hp' := Belief.expire_subset _ _ _ hp
  obtain ⟨⟨v, a⟩, hacc⟩ := Option.ne_none_iff_exists'.mp
    (hstanding.grounded (List.ne_nil_of_mem hp'))
  refine ⟨v, a, (accepted?_eq ht).trans hacc, ?_⟩
  -- the revision ends with the last frame, so it covers what came in since its first reading
  have hcovers : past.countP (rev.covers ·.1.frame) = past.countP (p.frame ≤ ·.1.frame) := by
    refine List.countP_congr fun e he => ?_
    obtain ⟨last, hl, hle⟩ := h.entry_le_last he
    obtain rfl := Option.some.inj (hl.symm.trans hlast)
    simp [Revision.covers, hfirst, hle]
  have hcount := h.countP_since hm ht hp'
  have hseq := hstanding.counted p hp'
  rw [h.seq] at hseq hfresh
  have hafter := hstanding.after a (Belief.acceptedFrame_of_accepted hacc) p hp'
  refine ⟨hfirst ▸ hafter, hlast, ?_, ?_⟩
  · rw [hcovers]
    omega
  · rw [hcovers]
    omega

theorem Run.revised_before (h : Run s past r) (hm : s.get? n = some m)
    {e : RawFrame × StepReport} (he : e ∈ past) (hrev : (n, rev) ∈ e.2.revisions) :
    ∃ v a, r.accepted? n = some (v, a) ∧ rev.last < a := by
  induction h with
  | start => cases he
  | @step past r r' f report hrun hstep ih =>
      have hst := stepped_of_step hstep
      obtain ⟨t, -, ht, -⟩ := hrun.field hm
      have hmoves := hrun.moves hm ht f
      obtain ⟨-, hstanding⟩ := hrun.sound.track n m t hm ht
      rw [accepted?_eq (hst.track ht)]
      rcases List.mem_cons.mp he with rfl | he
      · obtain ⟨-, hlast, hacc, -⟩ := hmoves.revision hst.later (revision_of_mem hstep ht hrev)
        rcases hmoves.held_or_taken with ⟨hnot, -⟩ | ⟨c, -, -, -, hnew⟩
        · cases hnot.symm.trans hacc
        · exact ⟨c, f.frame, hnew, hst.later _ hlast⟩
      · obtain ⟨v, a, hacc, hlt⟩ := ih he
        rw [accepted?_eq ht] at hacc
        rcases hmoves.held_or_taken with ⟨-, -, -, hsame⟩ | ⟨c, -, -, -, hnew⟩
        · exact ⟨v, a, hsame.trans hacc, hlt⟩
        · obtain ⟨l, hl, hle⟩ := hstanding.known a (Belief.acceptedFrame_of_accepted hacc)
          exact ⟨c, f.frame, hnew, hlt.trans_le (hle.trans (Nat.le_of_lt (hst.later l hl)))⟩
  | refused _ _ ih => exact ih he

theorem revisions_pairwise (report : StepReport) :
    report.revisions.Pairwise (·.1 ≠ ·.1) := by
  rw [StepReport.revisions, List.pairwise_filterMap]
  refine report.fields.ordered.imp fun {x y} hlt p hp q hq => ?_
  obtain ⟨-, -, rfl⟩ := Option.map_eq_some_iff.mp hp
  obtain ⟨-, -, rfl⟩ := Option.map_eq_some_iff.mp hq
  exact fun heq => String.lt_irrefl x.1 (by rw [heq] at hlt ⊢; exact hlt)

theorem Run.revisions_disjoint (h : Run s past r) :
    (past.flatMap (·.2.revisions)).Pairwise fun e e' =>
      e.1 = e'.1 → ∀ g, ¬ (e.2.covers g = true ∧ e'.2.covers g = true) := by
  induction h with
  | start => exact .nil
  | @step past r r' f report hrun hstep ih =>
      rw [List.flatMap_cons]
      refine List.pairwise_append.mpr ⟨?_, ih, ?_⟩
      · exact (revisions_pairwise report).imp fun hne heq => absurd heq hne
      · rintro ⟨n, rev⟩ hnew ⟨n', rev'⟩ hold rfl g ⟨hg, hg'⟩
        obtain ⟨t, ht, -⟩ := (mem_revisions_of_step hstep).mp hnew
        obtain ⟨m, hm⟩ := hrun.sound.model ht
        obtain ⟨v, a, hacc, hspans⟩ := hrun.spans hm hstep hnew
        obtain ⟨e, he, hrev⟩ := List.mem_flatMap.mp hold
        obtain ⟨v', a', hacc', hlt⟩ := hrun.revised_before hm he hrev
        obtain ⟨rfl, rfl⟩ := Prod.mk.inj (Option.some.inj (hacc.symm.trans hacc'))
        simp only [Revision.covers, Bool.and_eq_true, decide_eq_true_eq] at hg hg'
        -- the older one ends before the acceptance, the new one begins after it
        have hafter := hspans.after
        omega
  | refused _ _ ih => exact ih

end Reconciler

end GameTimeline
