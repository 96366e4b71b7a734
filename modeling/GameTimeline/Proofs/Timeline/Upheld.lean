import GameTimeline.Proofs.Reconcile.Span
import GameTimeline.Proofs.Timeline.Account
import GameTimeline.Proofs.Timeline.Phase

namespace GameTimeline

structure Upheld (m : FieldModel) (n : String) (seen : List RawFrame)
    (accepted : Option (FieldValue × Nat)) (front back : List CorrectedState) : Prop where
  account : Account m n seen front (accepted.map (·.1))
  before : ∀ x ∈ front, ∀ v a, accepted = some (v, a) → x.frame ≤ a
  held : ∀ x ∈ back, ∃ v a, accepted = some (v, a) ∧ a < x.frame ∧ x.Shows n .held (some v)

namespace Upheld

variable {m : FieldModel} {n : String} {seen : List RawFrame} {v c : FieldValue} {a : Nat}
  {accepted : Option (FieldValue × Nat)} {front back : List CorrectedState}
  {x : CorrectedState} {es : List (String × Revision)} {rev : Revision}

theorem shows (h : Upheld m n seen (some (v, a)) front back) :
    ∀ x ∈ back, x.Shows n .held (some v) := by
  intro x hx
  obtain ⟨_, _, heq, -, hshows⟩ := h.held x hx
  cases heq
  exact hshows

theorem whole (h : Upheld m n seen accepted front back) :
    Account m n seen (front ++ back) (accepted.map (·.1)) := by
  cases accepted with
  | some p => exact h.account.append_held h.shows
  | none =>
      cases back with
      | nil =>
          rw [List.append_nil]
          exact h.account
      | cons x back =>
          obtain ⟨_, _, hnone, -⟩ := h.held x (List.mem_cons_self ..)
          cases hnone

theorem untouched (h : Upheld m n seen accepted front back) (hes : ∀ rev, (n, rev) ∉ es) :
    Upheld m n seen accepted (front.map (·.reviseAll es)) (back.map (·.reviseAll es)) := by
  have hnone : ∀ rev, (n, rev) ∈ es → (none : Reading) = some rev.value :=
    fun rev hrev => absurd hrev (hes rev)
  have hkeep {x : CorrectedState} {p : Provenance} {r : Reading} (hx : x.Shows n p r) :
      (x.reviseAll es).Shows n p r :=
    CorrectedState.shows_reviseAll hx hnone fun rev hrev => absurd hrev (hes rev)
  refine ⟨h.account.map (·.reviseAll_frame es) fun x _ _ _ => hkeep, ?_, ?_⟩
  · intro y hy
    obtain ⟨x, hx, rfl⟩ := List.mem_map.mp hy
    rw [CorrectedState.reviseAll_frame]
    exact h.before x hx
  · intro y hy
    obtain ⟨x, hx, rfl⟩ := List.mem_map.mp hy
    obtain ⟨v, a, hacc, hlt, hshows⟩ := h.held x hx
    exact ⟨v, a, hacc, by rwa [CorrectedState.reviseAll_frame], hkeep hshows⟩

theorem kept (h : Upheld m n seen accepted front back)
    (hx : accepted = none → x.Shows n .unresolved none)
    (hx' : ∀ v a, accepted = some (v, a) → a < x.frame ∧ x.Shows n .held (some v)) :
    ∃ front' back', front ++ back ++ [x] = front' ++ back' ∧
      Upheld m n seen accepted front' back' := by
  cases accepted with
  | none =>
      exact ⟨_, [], (List.append_nil _).symm, h.whole.unresolved (hx rfl),
        fun _ _ _ _ hnone => (nomatch hnone), fun _ hy => (nomatch hy)⟩
  | some p =>
      refine ⟨front, back ++ [x], List.append_assoc .., h.account, h.before, ?_⟩
      intro y hy
      rcases List.mem_append.mp hy with hold | hnew
      · exact h.held y hold
      · rw [List.mem_singleton.mp hnew]
        exact ⟨p.1, p.2, rfl, hx' p.1 p.2 rfl⟩

theorem revised_split (h : Upheld m n seen (some (v, a)) front back)
    (hord : back.Pairwise (·.frame < ·.frame)) (hafter : a < rev.first)
    (hlast : ∀ x ∈ back, x.frame ≤ rev.last) :
    ∃ keep again, back = keep ++ again ∧ (∀ y ∈ front ++ keep, rev.covers y.frame = false) ∧
      (∀ y ∈ again, rev.covers y.frame = true) ∧
      (front ++ back).countP (rev.covers ·.frame) = again.length := by
  obtain ⟨keep, again, rfl, hkeep, hagain⟩ : ∃ keep again, back = keep ++ again ∧
      (∀ y ∈ keep, y.frame < rev.first) ∧ ∀ y ∈ again, rev.first ≤ y.frame :=
    ⟨_, _, List.takeWhile_append_dropWhile.symm,
      fun y hy => by simpa using List.mem_takeWhile_imp hy, fun y hy => le_of_mem_dropWhile hord hy⟩
  have hout : ∀ y ∈ front ++ keep, rev.covers y.frame = false := by
    intro y hy
    have hlt : y.frame < rev.first := by
      rcases List.mem_append.mp hy with hy | hy
      · exact Nat.lt_of_le_of_lt (h.before y hy v a rfl) hafter
      · exact hkeep y hy
    simp [Revision.covers, Nat.not_le.mpr hlt]
  have hin : ∀ y ∈ again, rev.covers y.frame = true := by
    intro y hy
    simp [Revision.covers, hagain y hy, hlast y (List.mem_append_right _ hy)]
  refine ⟨keep, again, rfl, hout, hin, ?_⟩
  rw [← List.append_assoc, List.countP_append, List.countP_eq_length.mpr hin,
    List.countP_eq_zero.mpr fun y hy => by simp [hout y hy], Nat.zero_add]

theorem revised (h : Upheld m n seen (some (v, a)) front back)
    (hord : back.Pairwise (·.frame < ·.frame)) (hrev : (n, rev) ∈ es)
    (hone : ∀ rev', (n, rev') ∈ es → rev' = rev) (hafter : a < rev.first)
    (hlast : ∀ x ∈ back, x.frame ≤ rev.last)
    (hpos : 1 ≤ (front ++ back).countP (rev.covers ·.frame))
    (hfew : (front ++ back).countP (rev.covers ·.frame) ≤ m.window - 1)
    (hx : x.Shows n .observed (some rev.value)) (hread : Read m n seen x.frame rev.value) :
    Account m n seen ((front ++ back).map (·.reviseAll es) ++ [x]) (some rev.value) := by
  obtain ⟨keep, again, rfl, hout, hin, hcount⟩ := h.revised_split hord hafter hlast
  rw [hcount] at hpos hfew
  have hvalue : ∀ rev', (n, rev') ∈ es → some rev.value = some rev'.value :=
    fun rev' hrev' => by rw [hone rev' hrev']
  have hbefore : Account m n seen (front ++ keep) (some v) :=
    h.account.append_held fun y hy => h.shows y (List.mem_append_left _ hy)
  have hbefore' := hbefore.map (g := (·.reviseAll es)) (·.reviseAll_frame es)
    fun y hy _ _ hshows => CorrectedState.shows_reviseAll hshows hvalue fun rev' hrev' => by
      rw [hone rev' hrev']
      exact hout y hy
  rw [← List.append_assoc, List.map_append, List.append_assoc]
  refine hbefore'.revised ?_ ?_ ?_ hx hread
  · rwa [List.length_map]
  · rwa [List.length_map]
  · intro z hz
    obtain ⟨y, hy, rfl⟩ := List.mem_map.mp hz
    exact CorrectedState.shows_revised hrev hvalue (hin y hy)

end Upheld

namespace Reconciler

variable {s : ModelSet} {past : List (RawFrame × StepReport)} {r : Reconciler} {n : String}
  {m : FieldModel} {seen : List RawFrame}

theorem Run.countP_records (h : Run s past r) (p : Nat → Bool) :
    (StepReport.records (past.map (·.2)).reverse).countP (p ·.frame) =
      past.countP (p ·.1.frame) := by
  have hframes : (StepReport.records (past.map (·.2)).reverse).countP (p ∘ (·.frame)) =
      past.countP (p ∘ (·.1.frame)) := by
    rw [← List.countP_map, h.record_frames, List.countP_reverse, List.countP_map]
  exact hframes

theorem accepted?_new (s : ModelSet) (n : String) : (new s).accepted? n = none := by
  rw [accepted?, belief?, new, Table.get?_map]
  cases s.models.get? n <;> rfl

section Step

variable {r' : Reconciler} {f : RawFrame} {report : StepReport} {t : Track} {c : FieldValue}
  {front back : List CorrectedState}

theorem notMem_revisions (hstep : r.step f = .ok (r', report)) (ht : r.tracks.get? n = some t)
    (hnone : (t.step (r.observation f n)).2.revision = none) (rev : Revision) :
    (n, rev) ∉ report.revisions := fun hrev => by
  cases hnone.symm.trans (revision_of_mem hstep ht hrev)

theorem Run.kept_upheld (h : Run s past r) (hm : s.get? n = some m)
    (hstep : r.step f = .ok (r', report)) (ht : r.tracks.get? n = some t)
    (hup : Upheld m n seen t.current.accepted front back)
    (hnot : (t.step (r.observation f n)).2.outcome.isAccepted = false)
    (hnone : (t.step (r.observation f n)).2.revision = none)
    (hvalue : (t.step (r.observation f n)).2.value = t.current.accepted.map (·.1)) :
    ∃ front' back', (front ++ back).map (·.reviseAll report.revisions) ++ [report.record] =
      front' ++ back' ∧ Upheld m n seen t.current.accepted front' back' := by
  have hst := stepped_of_step hstep
  have hup' := hup.untouched (notMem_revisions hstep ht hnone)
  have hshows := StepReport.record_shows (hst.field ht)
  rw [List.map_append]
  refine hup'.kept (fun hsilent => ?_) fun v a hacc => ?_
  · rw [hsilent] at hvalue
    rw [FieldStep.provenance_unresolved hvalue, hvalue] at hshows
    exact hshows
  · rw [hacc] at hvalue
    rw [FieldStep.provenance_held hvalue hnot, hvalue] at hshows
    refine ⟨?_, hshows⟩
    obtain ⟨-, hstanding⟩ := h.sound.track n m t hm ht
    obtain ⟨l, hl, hle⟩ := hstanding.known a (Belief.acceptedFrame_of_accepted hacc)
    exact (Nat.lt_of_le_of_lt hle (hst.later l hl)).trans_eq hst.frame.symm

theorem Run.taken_account (h : Run s past r) (hm : s.get? n = some m)
    (hstep : r.step f = .ok (r', report)) (ht : r.tracks.get? n = some t)
    (hstates : StepReport.records (past.map (·.2)).reverse = front ++ back)
    (hup : Upheld m n seen t.current.accepted front back)
    (hacc : (t.step (r.observation f n)).2.outcome.isAccepted = true)
    (hvalue : (t.step (r.observation f n)).2.value = some c)
    (hread : Read m n seen report.record.frame c) :
    Account m n seen ((front ++ back).map (·.reviseAll report.revisions) ++ [report.record])
      (some c) := by
  have hst := stepped_of_step hstep
  have hshows := StepReport.record_shows (hst.field ht)
  rw [FieldStep.provenance_observed hvalue hacc, hvalue] at hshows
  cases hrevision : (t.step (r.observation f n)).2.revision with
  | none =>
      have hup' := hup.untouched (notMem_revisions hstep ht hrevision)
      rw [List.map_append]
      exact hup'.whole.observed hshows hread
  | some rev =>
      have hmem : (n, rev) ∈ report.revisions :=
        (mem_revisions_of_step hstep).mpr ⟨t, ht, hrevision⟩
      obtain ⟨v, a, ha, hspans⟩ := h.spans hm hstep hmem
      obtain ⟨-, -, -, hrev⟩ := (h.moves hm ht f).revision hst.later hrevision
      obtain rfl := Option.some.inj (hrev.symm.trans hvalue)
      rw [← accepted?_eq ht, ha] at hup
      have hord := h.records_ordered
      have hcount := h.countP_records rev.covers
      rw [hstates] at hord hcount
      refine hup.revised (List.pairwise_append.mp hord).2.1 hmem ?_ hspans.after ?_
        (hcount ▸ hspans.some_frame) (hcount ▸ hspans.few_frames) hshows hread
      · intro rev' hrev'
        exact Option.some.inj ((revision_of_mem hstep ht hrev').symm.trans hrevision)
      · intro x hx
        obtain ⟨last, hl, hle⟩ := h.frame_le_last (hstates ▸ List.mem_append_right front hx)
        obtain rfl := Option.some.inj (hl.symm.trans hspans.last)
        exact hle

end Step

theorem Run.upheld (h : Run s past r) (hm : s.get? n = some m) (hseen : ∀ e ∈ past, e.1 ∈ seen) :
    ∃ front back, StepReport.records (past.map (·.2)).reverse = front ++ back ∧
      Upheld m n seen (r.accepted? n) front back := by
  induction h with
  | start =>
      refine ⟨[], [], rfl, ?_⟩
      rw [accepted?_new]
      exact ⟨.start, fun _ hx => (nomatch hx), fun _ hx => (nomatch hx)⟩
  | @step past r r' f report hrun hstep ih =>
      obtain ⟨front, back, hstates, hup⟩ := ih fun e he => hseen e (List.mem_cons_of_mem _ he)
      have hst := stepped_of_step hstep
      obtain ⟨t, -, ht, -⟩ := hrun.field hm
      have hrecords : StepReport.records (((f, report) :: past).map (·.2)).reverse =
          (front ++ back).map (·.reviseAll report.revisions) ++ [report.record] := by
        rw [List.map_cons, List.reverse_cons, StepReport.records_concat, hstates]
      rw [accepted?_eq ht] at hup
      rw [accepted?_eq (hst.track ht), hrecords]
      -- a step without an acceptance lengthens what is held; an acceptance ends it
      rcases (hrun.moves hm ht f).held_or_taken with
        ⟨hnot, hnone, hvalue, hsame⟩ | ⟨c, hacc, hs, hvalue, hnew⟩
      · rw [hsame]
        exact hrun.kept_upheld hm hstep ht hup hnot hnone hvalue
      · have hread : Read m n seen report.record.frame c :=
          ⟨f, hseen _ (List.mem_cons_self ..), hst.frame.symm, hs⟩
        refine ⟨_, [], (List.append_nil _).symm, ?_⟩
        rw [hnew]
        refine ⟨hrun.taken_account hm hstep ht hstates hup hacc hvalue hread, ?_,
          fun _ hx => (nomatch hx)⟩
        intro x hx v a ha
        cases ha
        rw [← hrecords] at hx
        obtain ⟨last, hl, hle⟩ := (hrun.step hstep).frame_le_last hx
        obtain rfl := Option.some.inj (hst.lastFrame.symm.trans hl)
        exact hle
  | refused _ _ ih => exact ih hseen

end Reconciler

end GameTimeline
