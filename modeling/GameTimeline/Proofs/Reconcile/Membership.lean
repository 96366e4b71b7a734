import GameTimeline.Proofs.Reconcile.Reach

namespace GameTimeline

theorem Domain.Member.ne_unsupported {d : Domain} {v : FieldValue} (h : d.Member v)
    (spelling : String) : v ≠ .unsupported spelling := by
  rintro rfl
  cases d <;> cases h

def ModelSet.Admits (s : ModelSet) (n : String) (v : FieldValue) : Prop :=
  ∃ m, s.get? n = some m ∧ m.normalize v = some v

theorem ModelSet.Admits.ne_unsupported {s : ModelSet} {n : String} {v : FieldValue}
    (h : s.Admits n v) (spelling : String) : v ≠ .unsupported spelling := by
  obtain ⟨m, -, hv⟩ := h
  exact Domain.Member.ne_unsupported hv spelling

structure Belief.Within (d : Domain) (b : Belief) : Prop where
  value : ∀ v, b.value = some v → d.Member v
  pending : ∀ p ∈ b.pending, d.Member p.value

structure FieldStep.Within (d : Domain) (st : FieldStep) : Prop where
  value : ∀ v, st.value = some v → d.Member v
  revision : ∀ rev, st.revision = some rev → d.Member rev.value

namespace Belief.Within

variable {d : Domain} {b : Belief} {v : FieldValue}

theorem empty (d : Domain) : Belief.empty.Within d where
  value _ hv := nomatch hv
  pending _ hp := nomatch hp

theorem accept (hv : d.Member v) (frame : Nat) : (Belief.accept v frame).Within d := by
  refine ⟨?_, fun _ hp => nomatch hp⟩
  rintro w hw
  cases hw
  exact hv

theorem expire (h : b.Within d) (window seq : Nat) : (b.expire window seq).Within d :=
  ⟨h.value, fun p hp => h.pending p (Belief.expire_subset b window seq hp)⟩

theorem push (h : b.Within d) (window : Nat) {p : Pending} (hp : d.Member p.value) :
    (b.push window p).Within d := by
  refine ⟨h.value, fun q hq => ?_⟩
  rcases Belief.mem_push hq with hold | rfl
  · exact h.pending q hold
  · exact hp

theorem clear (h : b.Within d) : Belief.Within d { b with pending := [] } :=
  ⟨h.value, fun _ hp => nomatch hp⟩

theorem held (h : b.Within d) (outcome : Outcome) (ds : List Discard) :
    (FieldStep.held (some b) outcome ds).Within d :=
  ⟨h.value, fun _ hrev => nomatch hrev⟩

end Belief.Within

namespace Track

variable {m : FieldModel} {o : Observation} {b b' : Belief} {st : FieldStep} {c v : FieldValue}
  {t : Track}

theorem taken_within (hc : m.domain.Member c) (outcome : Outcome) (terminal : Bool)
    (previous : Option Nat) (ps : List Pending) (ds : List Discard) :
    FieldStep.Within m.domain
      ⟨some c, outcome, terminal, Revision.upTo? previous ps c, ds⟩ := by
  refine ⟨fun w hw => ?_, fun rev hrev => ?_⟩
  · cases hw
    exact hc
  · obtain ⟨-, -, -, rfl⟩ := upTo?_eq_some hrev
    exact hc

theorem member_of_confirmed (h : b.Within m.domain) (hv : confirmed? m o b = some v) :
    m.domain.Member v := by
  obtain ⟨-, p, hp, rfl⟩ := Belief.majority_some (Option.filter_eq_some_iff.mp hv).1
  exact h.pending p hp

theorem suspectCandidate_within (h : b.Within m.domain) (hc : m.domain.Member c) :
    (suspectCandidate m o b c).1.Within m.domain ∧
      (suspectCandidate m o b c).2.Within m.domain := by
  have hpush := h.push m.window (p := ⟨o.frame, o.seq, c⟩) hc
  simp only [suspectCandidate]
  cases hv : confirmed? m o (b.push m.window ⟨o.frame, o.seq, c⟩) with
  | none => exact ⟨hpush, hpush.held _ _⟩
  | some v =>
      have hmem := member_of_confirmed hpush hv
      exact ⟨.accept hmem _, taken_within hmem _ _ _ _ _⟩

theorem Meets.within (hmeets : Meets m o b b' st) (h : b.Within m.domain) :
    b'.Within m.domain ∧ st.Within m.domain := by
  cases hmeets with
  | absent _ => exact ⟨h, h.held _ _⟩
  | faint _ _ => exact ⟨h, h.held _ _⟩
  | stray _ _ _ => exact ⟨h, h.held _ _⟩
  | refused _ _ => exact ⟨h, h.held _ _⟩
  | accepted hs _ =>
      have hmem := FieldModel.member_of_shown hs
      exact ⟨.accept hmem _, taken_within hmem _ _ _ _ _⟩
  | suspected hs _ => exact suspectCandidate_within h (FieldModel.member_of_shown hs)

theorem step_within (h : t.current.Within t.model.domain) (o : Observation) :
    (t.step o).1.current.Within t.model.domain ∧ (t.step o).2.Within t.model.domain := by
  obtain ⟨st, hmeets, hst⟩ := step_meets t o
  obtain ⟨hbelief, hstep⟩ := hmeets.within (h.expire t.model.window o.seq)
  rw [hst]
  exact ⟨hbelief, hstep.value, hstep.revision⟩

end Track

def StepReport.Within (s : ModelSet) (report : StepReport) : Prop :=
  ∀ n st, report.fields.get? n = some st → ∃ m, s.get? n = some m ∧ st.Within m.domain

namespace Reconciler

variable {s : ModelSet} {r r' : Reconciler} {f : RawFrame} {report : StepReport} {n : String}
  {b : Belief}

def Within (s : ModelSet) (r : Reconciler) : Prop :=
  ∀ n t, r.tracks.get? n = some t → s.get? n = some t.model ∧ t.current.Within t.model.domain

namespace Within

theorem start (s : ModelSet) : (Reconciler.new s).Within s := by
  intro n t ht
  rw [Reconciler.new, Table.get?_map] at ht
  obtain ⟨m, hm, rfl⟩ := Option.map_eq_some_iff.mp ht
  exact ⟨hm, .empty m.domain⟩

theorem step (h : r.Within s) (hstep : r.step f = .ok (r', report)) :
    r'.Within s ∧ report.Within s := by
  have hst := stepped_of_step hstep
  refine ⟨fun n t' ht' => ?_, fun n st hfield => ?_⟩
  · rw [hst.tracks, Table.get?_map] at ht'
    obtain ⟨t, ht, rfl⟩ := Option.map_eq_some_iff.mp ht'
    obtain ⟨hm, hcurrent⟩ := h n t ht
    exact ⟨hm, (Track.step_within hcurrent _).1⟩
  · rw [hst.fields, Table.get?_map] at hfield
    obtain ⟨t, ht, rfl⟩ := Option.map_eq_some_iff.mp hfield
    obtain ⟨hm, hcurrent⟩ := h n t ht
    exact ⟨t.model, hm, (Track.step_within hcurrent _).2⟩

theorem skip (h : r.Within s) (hskip : r.skip f = .ok r') : r'.Within s := by
  rw [Reconciler.skip] at hskip
  cases hcheck : r.check f with
  | error e =>
      rw [hcheck] at hskip
      cases hskip
  | ok _ =>
      rw [hcheck] at hskip
      cases hskip
      exact h

theorem expireAll (h : r.Within s) : r.expireAll.1.Within s := by
  intro n t' ht'
  rw [Reconciler.expireAll, Table.get?_map] at ht'
  obtain ⟨t, ht, rfl⟩ := Option.map_eq_some_iff.mp ht'
  obtain ⟨hm, hcurrent⟩ := h n t ht
  refine ⟨hm, ?_⟩
  rw [Track.clear_current]
  exact hcurrent.clear

theorem performAll (h : r.Within s) (ops : List Operation) : (r.performAll ops).Within s :=
  performAll_induction h (fun _ _ _ _ h hstep => (h.step hstep).1) (fun _ _ _ h => h.skip)
    (fun _ h => h.expireAll) ops

theorem belief (h : r.Within s) (hb : r.belief? n = some b) :
    (∀ v, b.value = some v → s.Admits n v) ∧ ∀ p ∈ b.pending, s.Admits n p.value := by
  obtain ⟨t, ht, rfl⟩ := current_of_belief? hb
  obtain ⟨hm, hcurrent⟩ := h n t ht
  exact ⟨fun v hv => ⟨t.model, hm, hcurrent.value v hv⟩,
    fun p hp => ⟨t.model, hm, hcurrent.pending p hp⟩⟩

end Within

end Reconciler

end GameTimeline
