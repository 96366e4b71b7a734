import GameTimeline.Proofs.Reconcile.Operation

namespace GameTimeline

namespace Track

variable {m : FieldModel} {past : List (Observation × FieldStep)} {t : Track} {o : Observation}

theorem Run.frames (h : Run m past t) : past.Pairwise (·.1.frame > ·.1.frame) := by
  induction h with
  | start => exact .nil
  | step _ _ _ hhead ih => exact pairwise_cons_of_head ih hhead

theorem frame_of_suspect {p : Pending} (hp : p ∈ suspects m past) :
    ∃ e ∈ past, e.1.frame = p.frame := by
  induction past with
  | nil => cases hp
  | cons e older ih =>
      rcases mem_suspects_cons hp with hold | ⟨hframe, -⟩
      · obtain ⟨x, hx, hxp⟩ := ih hold
        exact ⟨x, List.mem_cons_of_mem _ hx, hxp⟩
      · exact ⟨e, List.mem_cons_self .., hframe.symm⟩

theorem Explained.pending_step (h : Explained m past t) (hm : m.validate = .ok ())
    (hseq : o.seq = past.length + 1) {p : Pending} (hp : p ∈ (t.step o).1.current.pending) :
    p ∈ t.current.pending ∨ p.frame = o.frame := by
  have hmoves := h.moves hm hseq
  generalize (t.step o).1.current = b' at hmoves hp
  cases hmoves with
  | keeps _ _ _ _ _ => exact .inl (Belief.expire_subset _ _ _ hp)
  | buffers _ _ _ _ _ _ =>
      rcases Belief.mem_push hp with hold | rfl
      · exact .inl (Belief.expire_subset _ _ _ hold)
      · exact .inr rfl
  | accepts _ _ _ _ _ => cases hp
  | confirms _ _ _ _ _ _ => cases hp

theorem upTo?_eq_some {previous : Option Nat} {ps : List Pending} {v : FieldValue} {rev : Revision}
    (h : Revision.upTo? previous ps v = some rev) :
    (∃ p ∈ ps, p.frame = rev.first) ∧ previous = some rev.last ∧ rev.first ≤ rev.last ∧
      rev.value = v := by
  cases ps with
  | nil => cases h
  | cons p ps =>
      cases previous with
      | none => cases h
      | some last =>
          simp only [Revision.upTo?, List.head?_cons] at h
          split at h
          · rename_i hle
            cases h
            exact ⟨⟨p, List.mem_cons_self .., rfl⟩, rfl, hle, rfl⟩
          · cases h

structure Revises (t : Track) (o : Observation) (st : FieldStep) (rev : Revision) : Prop where
  awaited : ∃ p ∈ t.current.pending, p.frame = rev.first
  last : o.previousFrame = some rev.last
  accepted : st.outcome.isAccepted = true
  value : st.value = some rev.value

theorem Moves.revision {b b' : Belief} {st : FieldStep} (h : Moves m o b b' st)
    (hlater : ∀ l, o.previousFrame = some l → l < o.frame) {rev : Revision}
    (hrev : st.revision = some rev) :
    (∃ p ∈ b.pending, p.frame = rev.first) ∧ o.previousFrame = some rev.last ∧
      st.outcome.isAccepted = true ∧ st.value = some rev.value := by
  cases h with
  | keeps _ _ _ _ hr => cases hr.symm.trans hrev
  | buffers _ _ _ _ _ hr => cases hr.symm.trans hrev
  | accepts _ _ ho hv hr =>
      obtain ⟨⟨p, hp, hfirst⟩, hlast, -, rfl⟩ := upTo?_eq_some (hr.symm.trans hrev)
      exact ⟨⟨p, (List.dropWhile_sublist _).subset hp, hfirst⟩, hlast, by rw [ho]; rfl, hv⟩
  | confirms _ _ _ ho hv hr =>
      obtain ⟨⟨p, hp, hfirst⟩, hlast, hle, rfl⟩ := upTo?_eq_some (hr.symm.trans hrev)
      refine ⟨?_, hlast, by rw [ho]; rfl, hv⟩
      rcases Belief.mem_push hp with hold | rfl
      · exact ⟨p, hold, hfirst⟩
      · -- the candidate itself lies after all earlier frames
        have hlt := hlater _ hlast
        exact absurd (hfirst.trans_le hle) (Nat.not_le.mpr hlt)

theorem Explained.revises (h : Explained m past t) (hm : m.validate = .ok ())
    (hseq : o.seq = past.length + 1) (hlater : ∀ l, o.previousFrame = some l → l < o.frame)
    {rev : Revision} (hrev : (t.step o).2.revision = some rev) :
    Revises t o (t.step o).2 rev := by
  obtain ⟨⟨p, hp, hfirst⟩, hlast, hacc, hvalue⟩ := (h.moves hm hseq).revision hlater hrev
  exact ⟨⟨p, Belief.expire_subset _ _ _ hp, hfirst⟩, hlast, hacc, hvalue⟩

theorem Explained.step_value (h : Explained m past t) (hm : m.validate = .ok ())
    (hseq : o.seq = past.length + 1) : (t.step o).2.value = (t.step o).1.current.value := by
  have hmoves := h.moves hm hseq
  generalize (t.step o).1.current = b' at hmoves
  cases hmoves with
  | keeps _ _ _ hv _ => exact hv
  | buffers _ _ _ _ hv _ => exact hv
  | accepts _ _ _ hv _ => exact hv
  | confirms _ _ _ _ hv _ => exact hv

theorem Explained.member_value (h : Explained m past t) {v : FieldValue}
    (hv : t.current.value = some v) : m.domain.Member v := by
  obtain ⟨⟨w, a⟩, hw, rfl⟩ := Option.map_eq_some_iff.mp hv
  exact h.member w a hw

theorem Explained.rises (h : Explained m past t) (hm : m.validate = .ok ())
    (hseq : o.seq = past.length + 1) {b : Option Int64} (hb : m.monotonicity = .nonDecreasing b)
    {p : FieldValue} (hp : t.current.value = some p) :
    ∃ c, (t.step o).1.current.value = some c ∧ m.domain.AtMost p c := by
  have hmem := h.member_value hp
  have hrefl := Domain.atMost_refl (FieldModel.ordered_of_nonDecreasing hm hb) hmem
  have hmoves := h.moves hm hseq
  generalize (t.step o).1.current = b' at hmoves
  have climb {c : FieldValue} {elapsed : Nat} {verdict : Verdict}
      (hs : m.shown o.reading o.confidence = some c)
      (hc : m.classify (t.current.expire m.window (past.length + 1)).value c elapsed = verdict)
      (hverdict : verdict ≠ .reject) : m.domain.AtMost p c := by
    rw [Belief.expire_value, hp] at hc
    exact FieldModel.atMost_of_classify hm hb hmem (FieldModel.member_of_shown hs)
      (ne_of_eq_of_ne hc hverdict)
  cases hmoves with
  | keeps _ _ _ _ _ => exact ⟨p, hp, hrefl⟩
  | buffers _ _ _ _ _ _ => exact ⟨p, hp, hrefl⟩
  | accepts hs hc _ _ _ => exact ⟨_, rfl, climb hs hc (by decide)⟩
  | confirms hs hc _ _ _ _ => exact ⟨_, rfl, climb hs hc (by decide)⟩

end Track

namespace Reconciler

variable {s : ModelSet} {past : List (RawFrame × StepReport)} {r r' : Reconciler} {f : RawFrame}
  {report : StepReport} {n : String} {m : FieldModel}

def Awaits (r : Reconciler) (p : Pending) : Prop :=
  ∃ n t, r.tracks.get? n = some t ∧ p ∈ t.current.pending

theorem Run.sound (h : Run s past r) : Sound s r := by
  induction h with
  | start => exact .start s
  | step _ hstep ih => exact ih.step hstep
  | refused _ _ ih => exact ih

theorem Run.fieldOf (h : Run s past r) {t : Track} (ht : r.tracks.get? n = some t) :
    ∃ m hist, m.validate = .ok () ∧ Track.Run m hist t ∧ List.Forall₂ (Share n) past hist := by
  obtain ⟨m, hm⟩ := h.sound.model ht
  obtain ⟨hist, hfield, hshare⟩ := h.fieldAt hm ht
  exact ⟨m, hist, ModelSet.validate_of_get? hm, hfield, hshare⟩

theorem awaits_of_step (hrun : Run s past r) (hstep : r.step f = .ok (r', report)) {p : Pending}
    (hp : r'.Awaits p) : r.Awaits p ∨ p.frame = f.frame := by
  have hst := stepped_of_step hstep
  obtain ⟨n, t', ht', hmem⟩ := hp
  rw [hst.tracks, Table.get?_map] at ht'
  obtain ⟨t, ht, rfl⟩ := Option.map_eq_some_iff.mp ht'
  obtain ⟨m, hist, hm, hfield, hshare⟩ := hrun.fieldOf ht
  have hseq := hrun.observation_seq hshare f
  rcases (hfield.explained hm).pending_step hm hseq hmem with hold | hnew
  · exact .inl ⟨n, t, ht, hold⟩
  · exact .inr hnew

theorem mem_waiting_iff {p : Pending} : p ∈ r.waiting ↔ r.Awaits p := by
  simp only [waiting, Awaits, List.mem_flatMap, Table.mem_values_iff]
  constructor
  · rintro ⟨t, ⟨n, ht⟩, hp⟩
    exact ⟨n, t, ht, hp⟩
  · rintro ⟨n, t, ht, hp⟩
    exact ⟨t, ⟨n, ht⟩, hp⟩

theorem horizon_le (hrun : Run s past r) {p : Pending} (hp : r.Awaits p) :
    ∃ h, r.horizon = some h ∧ h ≤ p.frame := by
  have hin : p.frame ∈ r.waiting.map (·.frame) := List.mem_map_of_mem (mem_waiting_iff.mpr hp)
  have hmin := hrun.sound.horizon_eq
  cases hh : r.horizon with
  | none =>
      rw [List.min?_eq_none_iff.mp (hmin.symm.trans hh)] at hin
      cases hin
  | some h => exact ⟨h, rfl, (List.min?_eq_some_iff.mp (hmin.symm.trans hh)).2 _ hin⟩

theorem awaits_of_horizon (hrun : Run s past r) {h : Nat} (hh : r.horizon = some h) :
    ∃ p, r.Awaits p ∧ p.frame = h := by
  have hmin := hrun.sound.horizon_eq
  obtain ⟨p, hp, hframe⟩ := List.mem_map.mp (List.min?_eq_some_iff.mp (hmin.symm.trans hh)).1
  exact ⟨p, mem_waiting_iff.mp hp, hframe⟩

theorem mem_revisions_iff {rev : Revision} : (n, rev) ∈ report.revisions ↔
    ∃ st, report.fields.get? n = some st ∧ st.revision = some rev := by
  simp only [StepReport.revisions, List.mem_filterMap, Option.map_eq_some_iff,
    Table.get?_eq_some_iff]
  constructor
  · rintro ⟨⟨k, st⟩, hmem, rev', hrev, heq⟩
    cases heq
    exact ⟨st, hmem, hrev⟩
  · rintro ⟨st, hmem, hrev⟩
    exact ⟨(n, st), hmem, rev, hrev, rfl⟩

theorem mem_revisions_of_step (hstep : r.step f = .ok (r', report)) {rev : Revision} :
    (n, rev) ∈ report.revisions ↔
      ∃ t, r.tracks.get? n = some t ∧ (t.step (r.observation f n)).2.revision = some rev := by
  rw [mem_revisions_iff, (stepped_of_step hstep).fields, Table.get?_map]
  cases r.tracks.get? n <;> simp

theorem revision_of_mem (hstep : r.step f = .ok (r', report)) {t : Track}
    (ht : r.tracks.get? n = some t) {rev : Revision} (hrev : (n, rev) ∈ report.revisions) :
    (t.step (r.observation f n)).2.revision = some rev := by
  obtain ⟨t', ht', hrev⟩ := (mem_revisions_of_step hstep).mp hrev
  obtain rfl := Option.some.inj (ht.symm.trans ht')
  exact hrev

theorem revises_of_mem (hrun : Run s past r) (hstep : r.step f = .ok (r', report))
    {rev : Revision} (hrev : (n, rev) ∈ report.revisions) :
    ∃ t, r.tracks.get? n = some t ∧
      Track.Revises t (r.observation f n) (t.step (r.observation f n)).2 rev := by
  obtain ⟨t, ht, hrev⟩ := (mem_revisions_of_step hstep).mp hrev
  obtain ⟨m, hist, hm, hfield, hshare⟩ := hrun.fieldOf ht
  have hseq := hrun.observation_seq hshare f
  exact ⟨t, ht, (hfield.explained hm).revises hm hseq (stepped_of_step hstep).later hrev⟩

theorem revision_awaited (hrun : Run s past r) (hstep : r.step f = .ok (r', report))
    {rev : Revision} (hrev : (n, rev) ∈ report.revisions) :
    ∃ p, r.Awaits p ∧ p.frame = rev.first := by
  obtain ⟨t, ht, hrevises⟩ := revises_of_mem hrun hstep hrev
  obtain ⟨p, hp, hfirst⟩ := hrevises.awaited
  exact ⟨p, ⟨n, t, ht, hp⟩, hfirst⟩

end Reconciler

end GameTimeline
