import GameTimeline.Proofs.Reconcile.Settlement
import GameTimeline.Proofs.Timeline.Phase
import GameTimeline.Proofs.Timeline.Record

namespace GameTimeline

structure Cell where
  frame : Nat
  value : Reading
  tag : Option Provenance
  deriving DecidableEq

def CorrectedState.cell (s : CorrectedState) (n : String) : Cell :=
  ⟨s.frame, s.value n, s.provenance.get? n⟩

def FieldStep.touches (st : FieldStep) (frame : Nat) : Bool := st.revision.any (·.covers frame)

namespace Cell

def revise (c : Cell) (st : FieldStep) : Cell :=
  match st.revision with
  | none => c
  | some rev => if rev.covers c.frame then ⟨c.frame, some rev.value, some .revised⟩ else c

variable {c : Cell} {st : FieldStep}

@[simp] theorem revise_frame (c : Cell) (st : FieldStep) : (c.revise st).frame = c.frame := by
  rw [revise]
  split
  · rfl
  · split <;> rfl

theorem revise_of_not_touched (h : st.touches c.frame = false) : c.revise st = c := by
  rw [revise]
  split
  · rfl
  · rename_i rev hrev
    rw [FieldStep.touches, hrev, Option.any_some] at h
    simp [h]

theorem revise_of_none (h : st.revision = none) (c : Cell) : c.revise st = c := by
  rw [revise, h]

theorem revise_of_touched {rev : Revision} (hrev : st.revision = some rev)
    (h : st.touches c.frame = true) : c.revise st = ⟨c.frame, some rev.value, some .revised⟩ := by
  rw [FieldStep.touches, hrev, Option.any_some] at h
  simp [revise, hrev, h]

end Cell

theorem CorrectedState.cell_reviseAll {report : StepReport} {n : String} {st : FieldStep}
    (h : report.fields.get? n = some st) (x : CorrectedState) :
    (x.reviseAll report.revisions).cell n = (x.cell n).revise st := by
  have hrevisions (rev : Revision) : (n, rev) ∈ report.revisions ↔ st.revision = some rev := by
    simp [Reconciler.mem_revisions_iff, h]
  have htop : ∀ rev, (n, rev) ∈ report.revisions →
      st.revision.map (·.value) = some rev.value := by
    intro rev hrev
    rw [(hrevisions rev).mp hrev]
    rfl
  have hreached : reached n report.revisions x.frame = st.touches x.frame := by
    rw [Bool.eq_iff_iff, reached_eq_true_iff, FieldStep.touches, Option.any_eq_true]
    simp [hrevisions]
  rw [cell, tag_reviseAll, value_reviseAll htop, hreached, reviseAll_frame]
  cases htouched : st.touches x.frame with
  | false => rw [Cell.revise_of_not_touched htouched]; rfl
  | true =>
      cases hrev : st.revision with
      | none => simp [FieldStep.touches, hrev] at htouched
      | some rev =>
          rw [Cell.revise_of_touched hrev htouched]
          rfl

namespace Track

variable {m : FieldModel} {past : List (Observation × FieldStep)} {t : Track} {o : Observation}
  {e : Observation × FieldStep} {x : (Observation × FieldStep) × Cell} {v : FieldValue} {a : Nat}

def firstCell (e : Observation × FieldStep) : Cell := ⟨e.1.frame, e.2.value, some e.2.provenance⟩

def finals : List (Observation × FieldStep) → List ((Observation × FieldStep) × Cell)
  | [] => []
  | e :: older => (e, firstCell e) :: (finals older).map fun x => (x.1, x.2.revise e.2)

def column (past : List (Observation × FieldStep)) : List Cell := (finals past).map (·.2)

theorem column_cons (e : Observation × FieldStep) (past : List (Observation × FieldStep)) :
    column (e :: past) = firstCell e :: (column past).map (·.revise e.2) := by
  simp [column, finals]

theorem finals_map_fst (past : List (Observation × FieldStep)) :
    (finals past).map (·.1) = past := by
  induction past with
  | nil => rfl
  | cons e older ih => simpa [finals, Function.comp_def] using ih

theorem countP_finals (p : Observation × FieldStep → Bool)
    (past : List (Observation × FieldStep)) :
    (finals past).countP (p ·.1) = past.countP p := by
  conv_rhs => rw [← finals_map_fst past, List.countP_map]
  rfl

theorem mem_of_mem_finals (hx : x ∈ finals past) : x.1 ∈ past := by
  rw [← finals_map_fst past]
  exact List.mem_map_of_mem hx

theorem frame_of_mem_finals (hx : x ∈ finals past) : x.2.frame = x.1.1.frame := by
  induction past generalizing x with
  | nil => cases hx
  | cons e older ih =>
      rcases List.mem_cons.mp hx with rfl | hx
      · rfl
      · obtain ⟨y, hy, rfl⟩ := List.mem_map.mp hx
        rw [Cell.revise_frame]
        exact ih hy

theorem column_frames (past : List (Observation × FieldStep)) :
    (column past).map (·.frame) = past.map (·.1.frame) := by
  induction past with
  | nil => rfl
  | cons e older ih => simpa [column_cons, firstCell, Function.comp_def] using ih

theorem finals_of_none (h : e.2.revision = none) :
    finals (e :: past) = (e, firstCell e) :: finals past := by
  have hsame : (finals past).map (fun x => (x.1, x.2.revise e.2)) = finals past := by
    refine (List.map_congr_left fun x _ => ?_).trans (List.map_id _)
    simp [Cell.revise_of_none h]
  rw [finals, hsame]

structure Since (v : FieldValue) (a : Nat) (x : (Observation × FieldStep) × Cell) : Prop where
  value : x.2.value = some v
  held : a < x.1.1.frame → x.2.tag = some .held
  waits : a < x.1.1.frame → x.1.2.outcome.isAccepted = false

theorem Run.finals_since (hm : m.validate = .ok ()) (h : Run m past t) :
    ∀ x ∈ finals past, ∀ v a, t.current.accepted = some (v, a) → a ≤ x.1.1.frame → Since v a x := by
  induction h with
  | start => exact fun _ hx => nomatch hx
  | @step past t o hrun hseq hprev hhead ih =>
      have hstanding := hrun.standing hm
      have hlt : past.length < o.seq := by omega
      have hmoves := Track.moves hstanding.toWaiting hm (hrun.explained hm).model hlt
      intro x hx v a hacc hle
      rcases hmoves.held_or_taken with ⟨hnot, hnone, hvalue, hsame⟩ | ⟨c, hyes, -, hvalue, hnew⟩
      · -- nothing is taken up: what was held stays held, and the new cell holds it too
        have hold : t.current.accepted = some (v, a) := by
          rw [hacc] at hsame
          exact hsame.symm
        rw [finals_of_none hnone] at hx
        rcases List.mem_cons.mp hx with rfl | hx
        · have hv : (t.step o).2.value = some v := by
            rw [hvalue, Belief.expire_value, Belief.value, hold]
            rfl
          exact ⟨hv, fun _ => by rw [firstCell, FieldStep.provenance_held hv hnot], fun _ => hnot⟩
        · exact ih x hx v a hold hle
      · rw [hnew] at hacc
        obtain ⟨rfl, rfl⟩ := Prod.mk.inj (Option.some.inj hacc)
        rcases List.mem_cons.mp hx with rfl | hx
        · exact ⟨hvalue, fun hlt => absurd hlt (Nat.lt_irrefl _),
            fun hlt => absurd hlt (Nat.lt_irrefl _)⟩
        · obtain ⟨y, hy, rfl⟩ := List.mem_map.mp hx
          obtain ⟨l, hl, hyl⟩ := hrun.entry_le_head (mem_of_mem_finals hy)
          obtain ⟨e, he, rfl⟩ := Option.map_eq_some_iff.mp hl
          have hbefore := hhead e he
          have hge : o.frame ≤ y.1.1.frame := hle
          omega

theorem Run.resolves (hm : m.validate = .ok ()) (h : Run m past t)
    (hseq : o.seq = past.length + 1) :
    ∃ st, Resolves m o (t.current.expire m.window o.seq) (t.step o).1.current st ∧
      (t.step o).2 = { st with discarded := t.staleDiscards o ++ st.discarded } := by
  have hlt : past.length < o.seq := by omega
  exact Track.resolves (h.standing hm).toWaiting hm (h.explained hm).model hlt

structure Overrules (t : Track) (past : List (Observation × FieldStep)) (b : Belief)
    (c : FieldValue) (rev : Revision) : Prop
    extends Reaches b c (past.head?.map (·.1.frame)) rev where
  after : ∃ v a, t.current.accepted = some (v, a) ∧ a < rev.first

theorem Run.revision (hm : m.validate = .ok ()) (h : Run m past t)
    (hseq : o.seq = past.length + 1) (hprev : o.previousFrame = past.head?.map (·.1.frame))
    (hhead : ∀ e ∈ past.head?, e.1.frame < o.frame) :
    ((t.step o).2.outcome.isAccepted = false ∧ (t.step o).2.revision = none) ∨
      ∃ c, (t.step o).2.outcome.isAccepted = true ∧ (t.step o).2.value = some c ∧
        (t.step o).1.current.accepted = some (c, o.frame) ∧
        ((∃ rev, (t.step o).2.revision = some rev ∧
            Overrules t past (t.current.expire m.window o.seq) c rev) ∨
          (t.step o).2.revision = none ∧
            ∀ q ∈ (t.current.expire m.window o.seq).pending, q.value ≠ c) := by
  have hstanding := (h.standing hm).expire o.seq
  obtain ⟨st, hresolves, hst⟩ := h.resolves hm hseq
  rw [hst]
  have hlast : ∀ l, past.head?.map (·.1.frame) = some l → l < o.frame := by
    intro l hl
    obtain ⟨e, he, rfl⟩ := Option.map_eq_some_iff.mp hl
    exact hhead e he
  rcases hresolves.revision hstanding hprev hlast with hnot | ⟨c, hyes, hvalue, hnew, hrev⟩
  · exact .inl hnot
  · refine .inr ⟨c, hyes, hvalue, hnew, hrev.imp ?_ id⟩
    rintro ⟨rev, hrev, hreaches⟩
    refine ⟨rev, hrev, hreaches, ?_⟩
    obtain ⟨p, hp, hfirst⟩ := hreaches.first
    obtain ⟨⟨v, a⟩, hacc⟩ := Option.ne_none_iff_exists'.mp
      (hstanding.grounded (List.ne_nil_of_mem hp))
    exact ⟨v, a, hacc, hfirst ▸ hstanding.after a (Belief.acceptedFrame_of_accepted hacc) p hp⟩

theorem Overrules.touches_iff {b : Belief} {c : FieldValue} {rev : Revision} {st : FieldStep}
    (h : Overrules t past b c rev) (hrun : Run m past t) (hrev : st.revision = some rev)
    (he : e ∈ past) : st.touches e.1.frame = true ↔ rev.first ≤ e.1.frame := by
  obtain ⟨l, hl, hle⟩ := hrun.entry_le_head he
  obtain rfl := Option.some.inj (hl.symm.trans h.last)
  simp [FieldStep.touches, hrev, Revision.covers, hle]

theorem Run.touched_since (hm : m.validate = .ok ()) (h : Run m past t)
    (hseq : o.seq = past.length + 1) (hprev : o.previousFrame = past.head?.map (·.1.frame))
    (hhead : ∀ e ∈ past.head?, e.1.frame < o.frame) (hx : x ∈ finals past)
    (htouched : (t.step o).2.touches x.1.1.frame = true) :
    ∃ v a, t.current.accepted = some (v, a) ∧ a < x.1.1.frame ∧ Since v a x := by
  rcases h.revision hm hseq hprev hhead with
    ⟨-, hnone⟩ | ⟨c, -, -, -, ⟨rev, hrev, hover⟩ | ⟨hnone, -⟩⟩
  · simp [FieldStep.touches, hnone] at htouched
  · obtain ⟨v, a, hacc, hafter⟩ := hover.after
    have hfirst := (hover.touches_iff h hrev (mem_of_mem_finals hx)).mp htouched
    have hlt : a < x.1.1.frame := by omega
    exact ⟨v, a, hacc, hlt, h.finals_since hm x hx v a hacc (Nat.le_of_lt hlt)⟩
  · simp [FieldStep.touches, hnone] at htouched

end Track

namespace Reconciler

variable {s : ModelSet} {past : List (RawFrame × StepReport)} {r : Reconciler} {n : String}
  {hist : List (Observation × FieldStep)}

theorem Run.frame_of_mem (h : Run s past r) {e : RawFrame × StepReport} (he : e ∈ past) :
    e.2.frame = e.1.frame := by
  induction h with
  | start => cases he
  | step _ hstep ih =>
      rcases List.mem_cons.mp he with rfl | he
      · exact (stepped_of_step hstep).frame
      · exact ih he
  | refused _ _ ih => exact ih he

theorem cells_of_share (hframes : ∀ e ∈ past, e.2.frame = e.1.frame)
    (hshare : List.Forall₂ (Share n) past hist) :
    (StepReport.records (past.map (·.2)).reverse).map (·.cell n) =
      (Track.column hist).reverse := by
  induction hshare with
  | nil => rfl
  | @cons e h past hist hs _ ih =>
      have hold := ih fun x hx => hframes x (List.mem_cons_of_mem _ hx)
      have hnew : e.2.record.cell n = Track.firstCell h := by
        obtain ⟨htag, hvalue⟩ := StepReport.record_shows hs.step
        have hframe : e.2.record.frame = h.1.frame :=
          (hframes e (List.mem_cons_self ..)).trans hs.frame.symm
        rw [CorrectedState.cell, htag, hvalue, hframe]
        rfl
      have hrevised : ((Track.column hist).map (·.revise h.2)).reverse =
          (StepReport.records (past.map (·.2)).reverse).map
            ((·.cell n) ∘ (·.reviseAll e.2.revisions)) := by
        rw [← List.map_reverse, ← hold, List.map_map]
        exact List.map_congr_left fun x _ => (CorrectedState.cell_reviseAll hs.step x).symm
      rw [List.map_cons, List.reverse_cons, StepReport.records_concat, Track.column_cons,
        List.reverse_cons, hrevised, List.map_append, List.map_map, List.map_singleton, hnew]

theorem Run.cells (h : Run s past r) (hshare : List.Forall₂ (Share n) past hist) :
    (StepReport.records (past.map (·.2)).reverse).map (·.cell n) = (Track.column hist).reverse :=
  cells_of_share (fun _ he => h.frame_of_mem he) hshare

end Reconciler

end GameTimeline
