import GameTimeline.Proofs.Timeline.Freeze

namespace GameTimeline

namespace CorrectedState

structure Full (s : ModelSet) (x : CorrectedState) : Prop where
  fields : x.fields.keys = s.names
  provenance : x.provenance.keys = s.names

def stamp (x : CorrectedState) : Nat × Float := (x.frame, x.timestamp)

variable {s : ModelSet} {x y : CorrectedState} {n : String} {es : List (String × Revision)}

theorem Full.revise (h : x.Full s) (hn : n ∈ s.names) (rev : Revision) : (x.revise n rev).Full s := by
  rw [CorrectedState.revise]
  split
  · exact ⟨(Table.keys_insert (h.fields ▸ hn) _).trans h.fields,
      (Table.keys_insert (h.provenance ▸ hn) _).trans h.provenance⟩
  · exact h

theorem Full.reviseAll (h : x.Full s) (hes : ∀ e ∈ es, e.1 ∈ s.names) : (x.reviseAll es).Full s := by
  induction es generalizing x with
  | nil => exact h
  | cons e es ih =>
      exact ih (h.revise (hes e (List.mem_cons_self ..)) e.2)
        fun e' he' => hes e' (List.mem_cons_of_mem _ he')

@[simp] theorem revise_stamp (x : CorrectedState) (n : String) (rev : Revision) :
    (x.revise n rev).stamp = x.stamp := by
  rw [CorrectedState.revise]
  split <;> rfl

@[simp] theorem reviseAll_stamp (x : CorrectedState) (es : List (String × Revision)) :
    (x.reviseAll es).stamp = x.stamp := by
  induction es generalizing x with
  | nil => rfl
  | cons e es ih => exact (ih (x.revise e.1 e.2)).trans (revise_stamp x e.1 e.2)

theorem Full.get?_fields (h : x.Full s) (hn : n ∈ s.names) :
    x.fields.get? n = some (x.value n) := by
  obtain ⟨r, hr⟩ := Table.mem_keys_iff.mp (h.fields ▸ hn)
  rw [value, hr]
  rfl

theorem Full.ext (h : x.Full s) (h' : y.Full s) (hstamp : x.stamp = y.stamp)
    (hcells : ∀ n ∈ s.names, x.cell n = y.cell n) : x = y := by
  have hfields : x.fields = y.fields := by
    refine Table.ext_of_keys (h.fields.trans h'.fields.symm) fun n hn => ?_
    rw [h.fields] at hn
    rw [h.get?_fields hn, h'.get?_fields hn]
    exact congrArg some (congrArg Cell.value (hcells n hn))
  have hprovenance : x.provenance = y.provenance := by
    refine Table.ext_of_keys (h.provenance.trans h'.provenance.symm) fun n hn => ?_
    exact congrArg Cell.tag (hcells n (h.provenance ▸ hn))
  obtain ⟨hframe, htimestamp⟩ := Prod.mk.inj hstamp
  cases x
  cases y
  simp_all

theorem eq_of_cells {xs ys : List CorrectedState} (hxs : ∀ x ∈ xs, x.Full s)
    (hys : ∀ y ∈ ys, y.Full s) (hstamps : xs.map (·.stamp) = ys.map (·.stamp))
    (hcells : ∀ n ∈ s.names, xs.map (·.cell n) = ys.map (·.cell n)) : xs = ys := by
  induction xs generalizing ys with
  | nil => exact (List.map_eq_nil_iff.mp hstamps.symm).symm
  | cons x xs ih =>
      cases ys with
      | nil => cases hstamps
      | cons y ys =>
          obtain ⟨hstamp, hlater⟩ := List.cons.inj hstamps
          have hone : x = y := (hxs x (List.mem_cons_self ..)).ext (hys y (List.mem_cons_self ..))
            hstamp fun n hn => (List.cons.inj (hcells n hn)).1
          have hrest := ih (fun z hz => hxs z (List.mem_cons_of_mem _ hz))
            (fun z hz => hys z (List.mem_cons_of_mem _ hz)) hlater
            fun n hn => (List.cons.inj (hcells n hn)).2
          rw [hone, hrest]

end CorrectedState

namespace StepReport

variable {s : ModelSet} {report : StepReport} {rs : List StepReport}

theorem record_full (h : report.fields.keys = s.names) : report.record.Full s :=
  ⟨(Table.keys_map _ _).trans h, (Table.keys_map _ _).trans h⟩

theorem mem_names_of_revisions (h : report.fields.keys = s.names) :
    ∀ e ∈ report.revisions, e.1 ∈ s.names := by
  rintro ⟨n, rev⟩ he
  obtain ⟨st, hst, -⟩ := Reconciler.mem_revisions_iff.mp he
  exact h ▸ Table.mem_keys_iff.mpr ⟨st, hst⟩

theorem records_full (h : ∀ r ∈ rs, r.fields.keys = s.names) : ∀ x ∈ records rs, x.Full s := by
  induction rs with
  | nil => exact fun _ hx => nomatch hx
  | cons r later ih =>
      have hlater : ∀ r ∈ later, r.fields.keys = s.names :=
        fun r hr => h r (List.mem_cons_of_mem _ hr)
      intro x hx
      rcases List.mem_cons.mp hx with rfl | hx
      · refine (record_full (h r (List.mem_cons_self ..))).reviseAll fun e he => ?_
        obtain ⟨q, hq, he⟩ := List.mem_flatMap.mp he
        exact mem_names_of_revisions (hlater q hq) e he
      · exact ih hlater x hx

theorem records_stamps (rs : List StepReport) :
    (records rs).map (·.stamp) = rs.map fun r => (r.frame, r.timestamp) := by
  induction rs with
  | nil => rfl
  | cons r later ih =>
      rw [records, List.map_cons, List.map_cons, ih, CorrectedState.reviseAll_stamp]
      rfl

end StepReport

namespace TimelineBuilder.Assembled

variable {s : ModelSet} {frames rest : List RawFrame} {past : List (RawFrame × StepReport)}
  {r : Reconciler} {t : Timeline} {quality : QualityReport}

theorem stamps (h : Assembled s frames past r rest t quality) :
    t.toList.map (·.stamp) = frames.map fun f => (f.frame, f.timestamp) := by
  have hpast : (past.map (·.2)).reverse.map (fun r => (r.frame, r.timestamp)) =
      (past.map (·.1)).reverse.map fun f => (f.frame, f.timestamp) := by
    rw [List.map_reverse, List.map_reverse, List.map_map, List.map_map]
    refine congrArg List.reverse (List.map_congr_left fun e he => ?_)
    obtain ⟨hframe, htimestamp, -⟩ := h.run.report_shape he
    exact Prod.ext hframe htimestamp
  rw [h.states, List.map_append, StepReport.records_stamps, hpast, ← h.stream, List.map_append,
    List.map_map]
  rfl

theorem full (h : Assembled s frames past r rest t quality) : ∀ x ∈ t.toList, x.Full s := by
  have hkeys : ∀ e ∈ past, e.2.fields.keys = s.names := fun e he => (h.run.report_shape he).2.2
  intro x hx
  rw [h.states] at hx
  rcases List.mem_append.mp hx with hx | hx
  · refine StepReport.records_full (fun q hq => ?_) x hx
    obtain ⟨e, he, rfl⟩ := List.mem_map.mp (List.mem_reverse.mp hq)
    exact hkeys e he
  · obtain ⟨f, hf, rfl⟩ := List.mem_map.mp hx
    obtain ⟨e, he, -⟩ := h.ends (List.ne_nil_of_mem hf)
    obtain ⟨older, rfl⟩ := List.head?_eq_some_iff.mp he
    have hlast : (StepReport.lastFields ((e :: older).map (·.2)).reverse).keys = s.names := by
      rw [List.map_cons, List.reverse_cons, StepReport.lastFields_concat]
      exact (StepReport.record_full (hkeys e (List.mem_cons_self ..))).fields
    exact ⟨hlast, (Table.keys_map _ _).trans hlast⟩

end TimelineBuilder.Assembled

end GameTimeline
