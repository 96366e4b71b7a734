import GameTimeline.Proofs.Field.Pace
import GameTimeline.Proofs.Timeline.Ledger
import Mathlib.Data.List.Chain

namespace GameTimeline

namespace Track

variable {m : FieldModel} {past : List (Observation × FieldStep)} {t : Track} {o : Observation}
  {rev : Revision} {x : (Observation × FieldStep) × Cell} {v : FieldValue} {a : Nat}

theorem upTo?_head {previous : Option Nat} {ps : List Pending} {v : FieldValue}
    (h : Revision.upTo? previous ps v = some rev) :
    ∃ p, ps.head? = some p ∧ p.frame = rev.first := by
  cases ps with
  | nil => cases h
  | cons p ps =>
      cases previous with
      | none => cases h
      | some last =>
          simp only [Revision.upTo?, List.head?_cons] at h
          split at h
          · cases h
            exact ⟨p, rfl, rfl⟩
          · cases h

theorem value_of_agreeing {ps : List Pending} {c : FieldValue} {p : Pending}
    (h : (agreeing ps c).head? = some p) : p ∈ ps ∧ p.value = c := by
  have hnot := List.head?_dropWhile_not (fun p : Pending => decide (p.value ≠ c)) ps
  rw [agreeing] at h
  rw [h] at hnot
  exact ⟨(List.dropWhile_sublist _).subset (List.mem_of_head? h), by simpa using hnot⟩

theorem Run.contested (hm : m.validate = .ok ()) (h : Run m past t)
    (hseq : o.seq = past.length + 1) (hhead : ∀ e ∈ past.head?, e.1.frame < o.frame)
    (hlast : past.head?.map (·.1.frame) = some rev.last)
    (hrev : (t.step o).2.revision = some rev) :
    ∃ c g, (t.step o).2.value = some c ∧ m.domain.Member c ∧ rev.first ≤ g ∧
      m.classify t.current.value c (t.current.elapsed g) = .suspect := by
  obtain ⟨st, hresolves, hst⟩ := h.resolves hm hseq
  rw [hst] at hrev ⊢
  generalize (t.step o).1.current = b' at hresolves
  cases hresolves with
  | absent _ => cases hrev
  | faint _ _ => cases hrev
  | stray _ _ _ => cases hrev
  | refused _ _ => cases hrev
  | joined _ _ => cases hrev
  | @accepted c hs _ =>
      obtain ⟨p, hp, hfirst⟩ := upTo?_head hrev
      obtain ⟨hmem, rfl⟩ := value_of_agreeing hp
      exact ⟨p.value, p.frame, rfl, FieldModel.member_of_shown hs, Nat.le_of_eq hfirst.symm,
        h.pending_suspect hm p (Belief.expire_subset _ _ _ hmem)⟩
  | @confirmed c hs hc =>
      obtain ⟨-, -, hle, -⟩ := upTo?_eq_some hrev
      obtain ⟨e, he, heq⟩ := Option.map_eq_some_iff.mp hlast
      have hlt := hhead e he
      exact ⟨c, o.frame, rfl, FieldModel.member_of_shown hs, by omega, hc⟩

def Steady (m : FieldModel) (cells : List Cell) : Prop :=
  cells.IsChain fun later c => m.Near c.value later.value (later.frame - c.frame)

theorem finals_ordered (h : Run m past t) : (finals past).Pairwise (·.1.1.frame > ·.1.1.frame) := by
  rw [← List.pairwise_map (f := fun x : (Observation × FieldStep) × Cell => x.1)
    (R := fun e e' => e.1.frame > e'.1.frame), finals_map_fst]
  exact h.frames

theorem exists_final {e : Observation × FieldStep} (he : e ∈ past) : ∃ x ∈ finals past, x.1 = e := by
  rw [← finals_map_fst past] at he
  exact List.mem_map.mp he

theorem Run.edge (hm : m.validate = .ok ()) (h : Run m past t) {c v : FieldValue} {a : Nat}
    (hover : Overrules t past (t.current.expire m.window o.seq) c rev)
    (hacc : t.current.accepted = some (v, a)) :
    ∃ l₁ x w l₂, finals past = l₁ ++ x :: w :: l₂ ∧ x.1.1.frame = rev.first ∧
      a ≤ w.1.1.frame ∧ w.1.1.frame < rev.first := by
  have hex := h.explained hm
  obtain ⟨p, hp, hfirst⟩ := hover.first
  obtain ⟨v', a', hacc', hafter⟩ := hover.after
  obtain ⟨rfl, rfl⟩ := Prod.mk.inj (Option.some.inj (hacc.symm.trans hacc'))
  have hsuspect := hex.pending ▸ Belief.expire_subset _ _ _ hp
  obtain ⟨e, he, hea⟩ := frame_of_lastAccepted (hex.accepted ▸ hacc)
  obtain ⟨q, hq, hqp⟩ := frame_of_suspect (List.mem_filter.mp hsuspect).1
  obtain ⟨y, hy, rfl⟩ := exists_final he
  obtain ⟨z, hz, rfl⟩ := exists_final hq
  have hord := finals_ordered h
  obtain ⟨x₀, l, hfinals⟩ := List.exists_cons_of_ne_nil (List.ne_nil_of_mem hz)
  rw [hfinals] at hy hz hord ⊢
  have hle : ∀ x ∈ x₀ :: l, x.1.1.frame ≤ x₀.1.1.frame := by
    intro x hx
    rcases List.mem_cons.mp hx with rfl | hx
    · exact Nat.le_refl _
    · exact Nat.le_of_lt ((List.pairwise_cons.mp hord).1 x hx)
  have hzle := hle z hz
  have hyl : y ∈ l := by
    rcases List.mem_cons.mp hy with rfl | hy
    · omega
    · exact hy
  obtain ⟨l₁, x, w, l₂, heq, hx, hw⟩ := exists_boundary (x := x₀) (y := y) (l := l)
    (P := fun x : (Observation × FieldStep) × Cell => rev.first ≤ x.1.1.frame) (by omega) hyl
    (by omega)
  rw [heq] at hy hz hord ⊢
  have hcut := le_or_le_of_neighbours (f := fun x : (Observation × FieldStep) × Cell => x.1.1.frame)
    hord
  have hycut := hcut y hy
  have hzcut := hcut z hz
  exact ⟨l₁, x, w, l₂, rfl, by omega, by omega, by omega⟩

section Step

variable (hm : m.validate = .ok ()) (h : Run m past t) (hseq : o.seq = past.length + 1)
  (hprev : o.previousFrame = past.head?.map (·.1.frame))
  (hhead : ∀ e ∈ past.head?, e.1.frame < o.frame)
include hm h hseq hprev hhead

theorem Run.value_revised (hx : x ∈ finals past)
    (htouched : (t.step o).2.touches x.1.1.frame = true) :
    (x.2.revise (t.step o).2).value = (t.step o).2.value := by
  rcases h.revise_cases hm hseq hprev hhead hx with ⟨hnot, -⟩ | ⟨-, -, hnew⟩
  · cases hnot.symm.trans htouched
  · rw [hnew]

theorem Run.value_kept (hx : x ∈ finals past) (hnot : (t.step o).2.touches x.1.1.frame = false)
    (hacc : t.current.accepted = some (v, a)) (hle : a ≤ x.1.1.frame) :
    (x.2.revise (t.step o).2).value = some v := by
  rcases h.revise_cases hm hseq hprev hhead hx with ⟨-, hsame⟩ | ⟨htouched, -, -⟩
  · rw [hsame]
    exact (h.finals_since hm x hx v a hacc hle).value
  · cases hnot.symm.trans htouched

theorem Run.revision_eq_none (hsteady : Steady m (column ((o, (t.step o).2) :: past))) :
    (t.step o).2.revision = none := by
  rcases h.revision hm hseq hprev hhead with
    ⟨-, hnone⟩ | ⟨c', -, -, -, ⟨rev, hrev, hover⟩ | ⟨hnone, -⟩⟩
  · exact hnone
  · exfalso
    obtain ⟨c, g, hc, hmem, hfirst, hsuspect⟩ := h.contested hm hseq hhead hover.last hrev
    obtain ⟨v, a, hacc, -⟩ := hover.after
    obtain ⟨l₁, x, w, l₂, hfinals, hxf, hle, hlt⟩ := h.edge hm hover hacc
    have hx : x ∈ finals past := hfinals ▸ List.mem_append_right _ (List.mem_cons_self ..)
    have hw : w ∈ finals past := hfinals ▸ List.mem_append_right _
      (List.mem_cons_of_mem _ (List.mem_cons_self ..))
    have hxnew := h.value_revised hm hseq hprev hhead hx
      ((hover.touches_iff h hrev (mem_of_mem_finals hx)).mpr (Nat.le_of_eq hxf.symm))
    have hnot : (t.step o).2.touches w.1.1.frame = false := by
      rw [Bool.eq_false_iff, ne_eq, hover.touches_iff h hrev (mem_of_mem_finals hw)]
      omega
    have hwold := h.value_kept hm hseq hprev hhead hw hnot hacc hle
    have hchain := hsteady.tail
    rw [column_cons, List.tail_cons, column, List.map_map, hfinals, List.isChain_map] at hchain
    have hnear := (List.isChain_append_cons_cons.mp hchain).2.1
    simp only [Function.comp_apply, Cell.revise_frame, hxnew, hc, hwold, frame_of_mem_finals hx,
      frame_of_mem_finals hw] at hnear
    have hvalue : t.current.value = some v := by rw [Belief.value, hacc]; rfl
    rw [hvalue, elapsed_eq hacc] at hsuspect
    -- a reading was suspect for a step no longer than the one that the records now make
    exact FieldModel.classify_ne_suspect_of_near hm hmem (by omega) hnear hsuspect
  · exact hnone

end Step

theorem Run.unrevised (hm : m.validate = .ok ()) (h : Run m past t)
    (hsteady : Steady m (column past)) : ∀ e ∈ past, e.2.revision = none := by
  induction h with
  | start => exact fun _ he => nomatch he
  | @step past t o hrun hseq hprev hhead ih =>
      have hnone := hrun.revision_eq_none hm hseq hprev hhead hsteady
      have hold : Steady m (column past) := by
        have hchain := hsteady.tail
        rw [column, finals_of_none hnone] at hchain
        exact hchain
      exact List.forall_mem_cons.mpr ⟨hnone, ih hold⟩

end Track

end GameTimeline
