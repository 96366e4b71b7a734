import GameTimeline.Proofs.Timeline.Batch

namespace GameTimeline

namespace CorrectedState

variable {n : String} {top : Reading} {es : List (String × Revision)}

theorem value_revise (s : CorrectedState) (k n : String) (rev : Revision) :
    (s.revise k rev).value n =
      if k = n ∧ rev.covers s.frame = true then some rev.value else s.value n := by
  rw [revise]
  by_cases hcovers : rev.covers s.frame = true
  · by_cases hk : k = n
    · simp [value, Table.get?_insert, hcovers, hk]
    · simp [value, Table.get?_insert, hcovers, hk, Ne.symm hk]
  · simp [hcovers]

def reached (n : String) (es : List (String × Revision)) (frame : Nat) : Bool :=
  es.any fun e => e.1 = n && e.2.covers frame

theorem reached_cons (n k : String) (rev : Revision) (es : List (String × Revision))
    (frame : Nat) : reached n ((k, rev) :: es) frame =
      (decide (k = n) && rev.covers frame || reached n es frame) :=
  rfl

theorem value_reviseAll (htop : ∀ rev, (n, rev) ∈ es → top = some rev.value) (s : CorrectedState) :
    (s.reviseAll es).value n = if reached n es s.frame then top else s.value n := by
  induction es generalizing s with
  | nil => rfl
  | cons e es ih =>
      obtain ⟨k, rev⟩ := e
      have hrest := ih (fun rev' h => htop rev' (List.mem_cons_of_mem _ h)) (s.revise k rev)
      rw [revise_frame] at hrest
      rw [reviseAll, List.foldl_cons]
      refine hrest.trans ?_
      have hval : k = n → top = some rev.value := fun hk => htop rev (hk ▸ List.mem_cons_self ..)
      rw [value_revise, reached_cons]
      cases reached n es s.frame with
      | true => simp
      | false =>
          by_cases hk : k = n
          · simp [hk, hval hk]
          · simp [hk]

theorem tag_revise (s : CorrectedState) (k n : String) (rev : Revision) :
    (s.revise k rev).provenance.get? n =
      if k = n ∧ rev.covers s.frame = true then some .revised else s.provenance.get? n := by
  rw [revise]
  by_cases hcovers : rev.covers s.frame = true
  · by_cases hk : k = n
    · simp [Table.get?_insert, hcovers, hk]
    · simp [Table.get?_insert, hcovers, hk, Ne.symm hk]
  · simp [hcovers]

theorem tag_reviseAll (s : CorrectedState) :
    (s.reviseAll es).provenance.get? n =
      if reached n es s.frame then some .revised else s.provenance.get? n := by
  induction es generalizing s with
  | nil => rfl
  | cons e es ih =>
      obtain ⟨k, rev⟩ := e
      have hrest := ih (s.revise k rev)
      rw [revise_frame, tag_revise] at hrest
      rw [reviseAll, List.foldl_cons]
      refine hrest.trans ?_
      rw [reached_cons]
      cases reached n es s.frame with
      | true => simp
      | false => simp

theorem reached_eq_true_iff {frame : Nat} :
    reached n es frame = true ↔ ∃ rev, (n, rev) ∈ es ∧ rev.covers frame = true := by
  simp [reached]

def Shows (s : CorrectedState) (n : String) (p : Provenance) (r : Reading) : Prop :=
  s.provenance.get? n = some p ∧ s.value n = r

theorem shows_reviseAll {p : Provenance} {r : Reading} {s : CorrectedState}
    (h : s.Shows n p r) (hes : ∀ rev, (n, rev) ∈ es → top = some rev.value)
    (hout : ∀ rev, (n, rev) ∈ es → rev.covers s.frame = false) : (s.reviseAll es).Shows n p r := by
  have hunreached : ¬ reached n es s.frame = true := by
    rw [reached_eq_true_iff]
    rintro ⟨rev, hrev, hcovers⟩
    exact absurd hcovers (by simp [hout rev hrev])
  rw [Shows, tag_reviseAll, value_reviseAll hes, if_neg hunreached, if_neg hunreached]
  exact h

theorem shows_revised {s : CorrectedState} {rev : Revision} (hrev : (n, rev) ∈ es)
    (hes : ∀ rev, (n, rev) ∈ es → top = some rev.value) (hcovers : rev.covers s.frame = true) :
    (s.reviseAll es).Shows n .revised top := by
  have hreached : reached n es s.frame = true := reached_eq_true_iff.mpr ⟨rev, hrev, hcovers⟩
  rw [Shows, tag_reviseAll, value_reviseAll hes, if_pos hreached, if_pos hreached]
  exact ⟨rfl, rfl⟩

end CorrectedState

namespace FieldStep

variable {st : FieldStep} {v : FieldValue}

theorem provenance_unresolved (hv : st.value = none) : st.provenance = .unresolved := by
  simp [provenance, hv]

theorem provenance_observed (hv : st.value = some v) (ha : st.outcome.isAccepted = true) :
    st.provenance = .observed := by
  simp [provenance, hv, ha]

theorem provenance_held (hv : st.value = some v) (ha : st.outcome.isAccepted = false) :
    st.provenance = .held := by
  simp [provenance, hv, ha]

end FieldStep

theorem StepReport.record_value {report : StepReport} {n : String} {st : FieldStep}
    (h : report.fields.get? n = some st) : report.record.value n = st.value := by
  rw [CorrectedState.value, record, Table.get?_map, h]
  rfl

theorem StepReport.record_shows {report : StepReport} {n : String} {st : FieldStep}
    (h : report.fields.get? n = some st) : report.record.Shows n st.provenance st.value := by
  refine ⟨?_, record_value h⟩
  rw [record, Table.get?_map, h]
  rfl

end GameTimeline
