import GameTimeline.Proofs.Timeline.Session
import GameTimeline.Proofs.Timeline.Upheld

namespace GameTimeline

def ModelSet.widest (s : ModelSet) : Nat := (s.models.values.map (·.window)).max?.getD 0

theorem ModelSet.window_le_widest {s : ModelSet} {n : String} {m : FieldModel}
    (hm : s.get? n = some m) : m.window ≤ s.widest := by
  have hmem : m ∈ s.models.values := Table.mem_values_iff.mpr ⟨n, hm⟩
  exact List.le_max?_getD_of_mem (List.mem_map_of_mem hmem)

namespace Reconciler

variable {s : ModelSet} {past : List (RawFrame × StepReport)} {r : Reconciler} {n : String}
  {m : FieldModel} {t : Track} {p : Pending}

theorem Run.fresh (h : Run s past r) (hm : s.get? n = some m) (ht : r.tracks.get? n = some t)
    (hp : p ∈ t.current.pending) : r.seq - p.seq < m.window := by
  induction h generalizing t with
  | start =>
      rw [new, Table.get?_map] at ht
      obtain ⟨_, -, rfl⟩ := Option.map_eq_some_iff.mp ht
      cases hp
  | step hrun hstep _ => exact (hrun.sound.step_track hstep hm ht).2.2 p hp
  | refused _ _ ih => exact ih ht hp

theorem Run.countP_since_le (h : Run s past r) (hm : s.get? n = some m)
    (ht : r.tracks.get? n = some t) (hp : p ∈ t.current.pending) :
    past.countP (p.frame ≤ ·.1.frame) ≤ m.window := by
  have hcount := h.countP_since hm ht hp
  have hfresh := h.fresh hm ht hp
  rw [h.seq] at hfresh
  omega

end Reconciler

namespace TimelineBuilder

variable {s : ModelSet} {past : List (RawFrame × StepReport)} {rest : List RawFrame}
  {b : TimelineBuilder} {r' : Reconciler} {f : RawFrame} {report : StepReport} {n : String}
  {m : FieldModel} {rev : Revision}

theorem Playing.open_le (h : Playing s past b) : b.openStates.length ≤ s.widest := by
  cases hopen : b.openStates with
  | nil => exact Nat.zero_le _
  | cons x later =>
      obtain ⟨first, hfirst, -⟩ := h.reachable x (hopen ▸ List.mem_cons_self ..)
      obtain ⟨p, ⟨n, t, ht, hp⟩, rfl⟩ := Reconciler.awaits_of_horizon h.run hfirst
      obtain ⟨m, hm⟩ := h.run.sound.model ht
      -- all that is open came in since the reading that has waited longest
      have hall : ∀ y ∈ b.openStates, decide (p.frame ≤ y.frame) = true := by
        intro y hy
        obtain ⟨first', hfirst', hle⟩ := h.reachable y hy
        obtain rfl := Option.some.inj (hfirst.symm.trans hfirst')
        exact decide_eq_true hle
      rw [← hopen]
      calc b.openStates.length
          = b.openStates.countP (p.frame ≤ ·.frame) := (List.countP_eq_length.mpr hall).symm
        _ ≤ b.emitted.countP (p.frame ≤ ·.frame) := by
            rw [emitted, List.countP_append]
            exact Nat.le_add_left ..
        _ = past.countP (p.frame ≤ ·.1.frame) := by
            rw [h.emitted]
            exact h.run.countP_records (p.frame ≤ ·)
        _ ≤ m.window := h.run.countP_since_le hm ht hp
        _ ≤ s.widest := ModelSet.window_le_widest hm

structure Lands (past : List (RawFrame × StepReport)) (b : TimelineBuilder) (n : String)
    (m : FieldModel) (v : FieldValue) (a : Nat) (rev : Revision) : Prop
    extends b.reconciler.Spans past m a rev where
  open_held : ∀ e ∈ past, rev.covers e.1.frame = true →
    ∃ x ∈ b.openStates, x.frame = e.1.frame ∧ x.Shows n .held (some v)

theorem Playing.lands (h : Playing s past b) (hm : s.get? n = some m)
    (hstep : b.reconciler.step f = .ok (r', report)) (hrev : (n, rev) ∈ report.revisions) :
    ∃ v a, b.reconciler.accepted? n = some (v, a) ∧ Lands past b n m v a rev := by
  obtain ⟨v, a, hacc, hspans⟩ := h.run.spans hm hstep hrev
  have hseen : ∀ e ∈ past, e.1 ∈ past.map (·.1) := fun e he => List.mem_map_of_mem he
  obtain ⟨front, back, hstates, hup⟩ := h.run.upheld hm hseen
  rw [hacc] at hup
  refine ⟨v, a, hacc, hspans, fun e he hcovers => ?_⟩
  have hfirst : rev.first ≤ e.1.frame := by
    simp only [Revision.covers, Bool.and_eq_true, decide_eq_true_eq] at hcovers
    exact hcovers.1
  have hmem : e.1.frame ∈ (StepReport.records (past.map (·.2)).reverse).map (·.frame) := by
    rw [h.run.record_frames]
    exact List.mem_reverse.mpr (List.mem_map_of_mem he)
  obtain ⟨x, hx, hframe⟩ := List.mem_map.mp hmem
  rw [← hframe] at hfirst
  refine ⟨x, ?_, hframe, ?_⟩
  · -- a closed record lies before every reading that waits
    have hemitted : x ∈ b.closed.toList ++ b.openStates := by
      rw [← emitted, h.emitted]
      exact hx
    rcases List.mem_append.mp hemitted with hclosed | hopen
    · obtain ⟨p, hp, hp'⟩ := Reconciler.revision_awaited h.run hstep hrev
      have hlt := h.final x hclosed p hp
      omega
    · exact hopen
  · -- a record from up to the acceptance lies before the revision
    rw [hstates] at hx
    rcases List.mem_append.mp hx with hbefore | hheld
    · have hle := hup.before x hbefore v a rfl
      have hlt := hspans.after
      omega
    · exact hup.shows x hheld

theorem Run.lookback_bounded (h : Run s past rest b) :
    (∀ f r' report n rev, b.session = .active → b.reconciler.step f = .ok (r', report) →
      (n, rev) ∈ report.revisions → ∃ m v a, s.get? n = some m ∧
        b.reconciler.accepted? n = some (v, a) ∧ Lands past b n m v a rev) ∧
    ((past.flatMap (·.2.revisions)).Pairwise fun e e' =>
      e.1 = e'.1 → ∀ g, ¬ (e.2.covers g = true ∧ e'.2.covers g = true)) ∧
    b.openStates.length ≤ s.widest ∧
    (b.session.isFrozen = true → b.openStates = []) := by
  rcases h.phase with ⟨-, hplaying⟩ | hover
  · refine ⟨?_, hplaying.run.revisions_disjoint, hplaying.open_le, fun hfrozen => ?_⟩
    · intro f r' report n rev _ hstep hrev
      obtain ⟨t, ht, -⟩ := (Reconciler.mem_revisions_of_step hstep).mp hrev
      obtain ⟨m, hm⟩ := hplaying.run.sound.model ht
      obtain ⟨v, a, hacc, hlands⟩ := hplaying.lands hm hstep hrev
      exact ⟨m, v, a, hm, hacc, hlands.toSpans, hlands.open_held⟩
    · have hactive : b.session = .active := hplaying.session
      rw [hactive] at hfrozen
      cases hfrozen
  · obtain ⟨r, hrun⟩ := hover.run
    have hopen : b.openStates = [] := hover.ended.nothing_open
    refine ⟨?_, hrun.revisions_disjoint, hopen ▸ Nat.zero_le _, fun _ => hopen⟩
    intro f r' report n rev hactive
    obtain ⟨frame, field, hfrozen⟩ := hover.ended.session
    cases hactive.symm.trans hfrozen

theorem Run.lookback_bounded_gold : ∃ past b r' report,
    Run (.single (.boundedDelta "gold" 1) rfl) past [] b ∧
      past.map (·.1.frame) = [4, 2, 0] ∧ b.openStates.map (·.frame) = [2, 4] ∧
      b.reconciler.step (.showing 6 "gold" 9) = .ok (r', report) ∧
      report.revisions = [("gold", ⟨2, 4, .int 9⟩)] ∧
      b.reconciler.accepted? "gold" = some (.int 5, 0) ∧
      Lands past b "gold" (.boundedDelta "gold" 1) (.int 5) 0 ⟨2, 4, .int 9⟩ ∧
      b.openStates.length ≤ ModelSet.widest (.single (.boundedDelta "gold" 1) rfl) := by
  have hrun : ∃ past b r' report,
      Run (.single (.boundedDelta "gold" 1) rfl) past [] b ∧
        past.map (·.1.frame) = [4, 2, 0] ∧ b.openStates.map (·.frame) = [2, 4] ∧
        b.session = .active ∧
        b.reconciler.step (.showing 6 "gold" 9) = .ok (r', report) ∧
        report.revisions = [("gold", ⟨2, 4, .int 9⟩)] ∧
        b.reconciler.accepted? "gold" = some (.int 5, 0) := by
    have hrun₁ := Run.start (s := .single (.boundedDelta "gold" 1) rfl)
    have hrun₂ := hrun₁.played (f := .showing 0 "gold" 5) rfl rfl rfl
    have hrun₃ := hrun₂.played (f := .showing 2 "gold" 9) rfl rfl rfl
    have hrun₄ := hrun₃.played (f := .new 4 0) rfl rfl rfl
    exact ⟨_, _, _, _, hrun₄, rfl, rfl, rfl, rfl, rfl, rfl⟩
  obtain ⟨past, b, r', report, h, hframes, hopen, hactive, hstep, hrevisions, hacc⟩ := hrun
  obtain ⟨hlands, -, hlength, -⟩ := lookback_bounded h
  obtain ⟨m, v, a, hm, hacc', hlands⟩ := hlands _ _ _ "gold" ⟨2, 4, .int 9⟩ hactive hstep
    (hrevisions ▸ List.mem_singleton_self _)
  cases hacc.symm.trans hacc'
  cases hm
  exact ⟨past, b, r', report, h, hframes, hopen, hstep, hrevisions, hacc, hlands, hlength⟩

end TimelineBuilder

end GameTimeline
