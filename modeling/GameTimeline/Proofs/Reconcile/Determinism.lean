import GameTimeline.Proofs.Reconcile.Reach

namespace GameTimeline

namespace Track

variable {m : FieldModel} {past past' later : List (Observation × FieldStep)} {t t' : Track}
  {e : Observation × FieldStep}

def input (e : Observation × FieldStep) : Nat × Reading × Option Float32 :=
  (e.1.frame, e.1.reading, e.1.confidence)

theorem Run.of_cons (h : Run m (e :: past) t') :
    ∃ t, Run m past t ∧ e.1.seq = past.length + 1 ∧
      e.1.previousFrame = past.head?.map (·.1.frame) ∧
      (∀ x ∈ past.head?, x.1.frame < e.1.frame) ∧ (t.step e.1).2 = e.2 ∧ (t.step e.1).1 = t' := by
  cases h with
  | step hrun hseq hprev hhead => exact ⟨_, hrun, hseq, hprev, hhead, rfl, rfl⟩

theorem Run.older (h : Run m (later ++ past) t) : ∃ t₀, Run m past t₀ := by
  induction later generalizing t with
  | nil => exact ⟨t, h⟩
  | cons e later ih =>
      obtain ⟨t₁, hrun, -⟩ := h.of_cons
      exact ih hrun

theorem observation_ext {o o' : Observation} (hframe : o.frame = o'.frame) (hseq : o.seq = o'.seq)
    (hprev : o.previousFrame = o'.previousFrame) (hreading : o.reading = o'.reading)
    (hconfidence : o.confidence = o'.confidence) : o = o' := by
  cases o
  cases o'
  simp_all

theorem Run.unique (h : Run m past t) (h' : Run m past' t')
    (hinput : past.map input = past'.map input) : past = past' ∧ t = t' := by
  induction h generalizing past' t' with
  | start =>
      obtain rfl := List.map_eq_nil_iff.mp hinput.symm
      cases h' with
      | start => exact ⟨rfl, rfl⟩
  | @step past t o _ hseq hprev _ ih =>
      cases past' with
      | nil => cases hinput
      | cons e past' =>
          obtain ⟨t₀, hrun', hseq', hprev', -, hst, rfl⟩ := h'.of_cons
          obtain ⟨hone, hrest⟩ := List.cons.inj hinput
          obtain ⟨rfl, rfl⟩ := ih hrun' hrest
          simp only [input, Prod.mk.injEq] at hone
          obtain ⟨hframe, hreading, hconfidence⟩ := hone
          have hobs : e.1 = o := (observation_ext hframe (hseq.trans hseq'.symm)
            (hprev.trans hprev'.symm) hreading hconfidence).symm
          obtain ⟨o', st⟩ := e
          obtain rfl : o' = o := hobs
          obtain rfl : (t.step o').2 = st := hst
          exact ⟨rfl, rfl⟩

end Track

namespace Reconciler

variable {s : ModelSet} {past past' later : List (RawFrame × StepReport)} {r r' : Reconciler}
  {e : RawFrame × StepReport}

theorem Run.of_cons (h : Run s (e :: past) r') :
    ∃ r, Run s past r ∧ r.step e.1 = .ok (r', e.2) := by
  generalize hall : e :: past = all at h
  induction h with
  | start => cases hall
  | step hrun hstep _ =>
      cases hall
      exact ⟨_, hrun, hstep⟩
  | refused _ _ ih => exact ih hall

theorem Run.older (h : Run s (later ++ past) r) : ∃ r₀, Run s past r₀ := by
  induction later generalizing r with
  | nil => exact ⟨r, h⟩
  | cons e later ih =>
      obtain ⟨r₁, hrun, -⟩ := h.of_cons
      exact ih hrun

theorem Run.of_nil (h : Run s [] r) : r = .new s := by
  generalize hall : [] = all at h
  induction h with
  | start => rfl
  | step => cases hall
  | refused _ _ ih => exact ih hall

theorem Run.unique (h : Run s past r) (h' : Run s past' r')
    (hframes : past.map (·.1) = past'.map (·.1)) : past = past' ∧ r = r' := by
  induction past generalizing past' r r' with
  | nil =>
      obtain rfl := List.map_eq_nil_iff.mp hframes.symm
      exact ⟨rfl, h.of_nil.trans h'.of_nil.symm⟩
  | cons e past ih =>
      cases past' with
      | nil => cases hframes
      | cons e' past' =>
          obtain ⟨hone, hrest⟩ := List.cons.inj hframes
          obtain ⟨r₀, hrun, hstep⟩ := h.of_cons
          obtain ⟨r₀', hrun', hstep'⟩ := h'.of_cons
          obtain ⟨rfl, rfl⟩ := ih hrun hrun' hrest
          have hframe : e.1 = e'.1 := hone
          rw [hframe, hstep'] at hstep
          obtain ⟨rfl, hreport⟩ := Prod.mk.inj (Except.ok.inj hstep)
          exact ⟨by rw [Prod.ext hframe hreport.symm], rfl⟩

end Reconciler

end GameTimeline
