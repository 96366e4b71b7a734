import GameTimeline.Proofs.Reconcile.Stream

namespace GameTimeline

def StepReport.outcome? (r : StepReport) (n : String) : Option Outcome :=
  (r.fields.get? n).map (·.outcome)

namespace Reconciler

variable {s : ModelSet} {past : List (RawFrame × StepReport)} {r r' : Reconciler} {f : RawFrame}
  {report : StepReport} {n : String} {m : FieldModel}

theorem shown_share {e : RawFrame × StepReport} {h : Observation × FieldStep} (hs : Share n e h)
    (v : FieldValue) :
    decide (m.shown (e.1.reading n) (e.1.confidenceOf n) = some v) =
      decide (m.shown h.1.reading h.1.confidence = some v) := by
  rw [hs.reading, hs.confidence]

theorem belief_change_justified {p c : FieldValue} {a g : Nat} (hrun : Run s past r)
    (hstep : r.step f = .ok (r', report)) (hm : s.get? n = some m)
    (hp : r.accepted? n = some (p, a)) (hc : r'.accepted? n = some (c, g)) (hne : c ≠ p) :
    g = f.frame ∧ a < f.frame ∧ m.shown (f.reading n) (f.confidenceOf n) = some c ∧
      Track.Justified m p c (f.frame - a) ((((f, report) :: past).take m.window).countP
        fun e => m.shown (e.1.reading n) (e.1.confidenceOf n) = some c) := by
  have hvalid := ModelSet.validate_of_get? hm
  obtain ⟨t, hist, ht, hfield, hshare⟩ := hrun.field hm
  have hst := stepped_of_step hstep
  have hseq := hrun.observation_seq hshare f
  rw [accepted?_eq ht] at hp
  rw [accepted?_eq (hst.track ht)] at hc
  obtain ⟨hg, hs, hjust⟩ := hfield.change_justified hvalid hseq hp hc hne
  have hfirst : a < f.frame := by
    rw [(hfield.explained hvalid).accepted] at hp
    obtain ⟨h, hmem, rfl⟩ := Track.frame_of_lastAccepted hp
    obtain ⟨e, he, hsh⟩ := exists_of_forall₂ hshare hmem
    rw [hsh.frame]
    exact (List.pairwise_cons.mp (hrun.step hstep).frames).1 e he
  have hshare' : List.Forall₂ (Share n) ((f, report) :: past)
      ((r.observation f n, (t.step (r.observation f n)).2) :: hist) :=
    .cons ⟨rfl, rfl, rfl, hst.field ht⟩ hshare
  refine ⟨hg, hfirst, hs, ?_⟩
  rw [countP_eq_of_forall₂ (List.forall₂_take m.window hshare') fun _ _ h => shown_share h c]
  exact hjust

theorem belief_change_justified_gold : ∃ past r r' report,
    Run (.single (.boundedDelta "gold" 1) rfl) past r ∧
      r.step (.showing 2 "gold" 9) = .ok (r', report) ∧
      r.accepted? "gold" = some (.int 5, 0) ∧ r'.accepted? "gold" = some (.int 9, 2) ∧
      Track.Justified (.boundedDelta "gold" 1) (.int 5) (.int 9) 2
        ((((RawFrame.showing 2 "gold" 9, report) :: past).take 3).countP
          fun e => (FieldModel.boundedDelta "gold" 1).shown (e.1.reading "gold")
            (e.1.confidenceOf "gold") = some (.int 9)) := by
  have hrun : ∃ past r, Run (.single (.boundedDelta "gold" 1) rfl) past r ∧
      r.accepted? "gold" = some (.int 5, 0) ∧
      ∃ r' report, r.step (.showing 2 "gold" 9) = .ok (r', report) ∧
        r'.accepted? "gold" = some (.int 9, 2) :=
    ⟨[(.showing 1 "gold" 9, _), (.showing 0 "gold" 5, _)], _, .step (.step .start rfl) rfl, rfl,
      _, _, rfl, rfl⟩
  obtain ⟨past, r, hrun, hp, r', report, hstep, hc⟩ := hrun
  obtain ⟨-, -, -, hjust⟩ := belief_change_justified hrun hstep rfl hp hc (by decide)
  exact ⟨past, r, r', report, hrun, hstep, hp, hc, hjust⟩

theorem corroborated_value_accepted {v : FieldValue} {k : Nat} (hrun : Run s past r)
    (hm : s.get? n = some m) (hk : k ≤ m.window)
    (hmany : m.majority ≤ (past.take k).countP fun e =>
      m.shown (e.1.reading n) (e.1.confidenceOf n) = some v && e.2.outcome? n ≠ some .rejected)
    (hother : ∀ e ∈ past.take k, ∀ st, e.2.fields.get? n = some st →
      st.outcome.isAccepted = true → st.value = some v) :
    (r.accepted? n).map (·.1) = some v := by
  obtain ⟨t, hist, ht, hfield, hshare⟩ := hrun.field hm
  have htake := List.forall₂_take k hshare
  rw [accepted?_eq ht]
  refine hfield.value_of_votes (ModelSet.validate_of_get? hm) hk ?_ ?_
  · rw [← countP_eq_of_forall₂ htake]
    · exact hmany
    · intro e h hs
      rw [shown_share hs, StepReport.outcome?, hs.step]
      simp
  · intro h hh
    obtain ⟨e, he, hs⟩ := exists_of_forall₂ htake hh
    exact hother e he h.2 hs.step

theorem corroborated_value_accepted_gold : ∃ past r,
    Run (.single (.boundedDelta "gold" 1) rfl) past r ∧
      past.map (·.1.frame) = [2, 1, 0] ∧ (r.accepted? "gold").map (·.1) = some (.int 9) := by
  have hrun : ∃ past r, Run (.single (.boundedDelta "gold" 1) rfl) past r ∧
      past.map (·.1.frame) = [2, 1, 0] ∧
      ((past.take 2).countP fun e => (FieldModel.boundedDelta "gold" 1).shown (e.1.reading "gold")
        (e.1.confidenceOf "gold") = some (.int 9) && e.2.outcome? "gold" ≠ some .rejected) = 2 ∧
      (past.take 2).map (fun e => (e.2.fields.get? "gold").map fun st => (st.outcome, st.value)) =
        [some (.confirmed, some (.int 9)), some (.suspect, some (.int 5))] :=
    ⟨[(.showing 2 "gold" 9, _), (.showing 1 "gold" 9, _), (.showing 0 "gold" 5, _)], _,
      .step (.step (.step .start rfl) rfl) rfl, rfl, rfl, rfl⟩
  obtain ⟨past, r, hrun, hframes, hmany, hseen⟩ := hrun
  refine ⟨past, r, hrun, hframes, corroborated_value_accepted hrun rfl (by decide) hmany.ge ?_⟩
  intro e he st hst ha
  have hin : some (st.outcome, st.value) ∈
      (past.take 2).map fun e => (e.2.fields.get? "gold").map fun st => (st.outcome, st.value) :=
    List.mem_map.mpr ⟨e, he, by rw [hst]; rfl⟩
  rw [hseen] at hin
  rcases List.mem_cons.mp hin with hnow | hthen
  · exact (Prod.mk.inj (Option.some.inj hnow)).2
  · obtain ⟨ho, -⟩ := Prod.mk.inj (Option.some.inj (List.mem_singleton.mp hthen))
    rw [ho] at ha
    cases ha

end Reconciler

end GameTimeline
