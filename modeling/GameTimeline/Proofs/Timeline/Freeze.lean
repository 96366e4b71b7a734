import GameTimeline.Proofs.Timeline.Admission
import GameTimeline.Proofs.Timeline.Assembly

namespace GameTimeline

def StepReport.Ends (s : ModelSet) (report : StepReport) (n : String) : Prop :=
  ∃ m st v, s.get? n = some m ∧ report.fields.get? n = some st ∧
    st.outcome.isAccepted = true ∧ st.value = some v ∧ m.terminal = some v

def QualityReport.unignored (q : QualityReport) : QualityReport :=
  { q with fields := q.fields.map fun _ f => { f with ignoredAfterFreeze := 0 } }

theorem Track.Run.terminal_iff {m : FieldModel} {past : List (Observation × FieldStep)} {t : Track}
    (hm : m.validate = .ok ()) (h : Run m past t) :
    ∀ e ∈ past, e.2.isTerminal = true ↔
      e.2.outcome.isAccepted = true ∧ ∃ v, e.2.value = some v ∧ m.terminal = some v := by
  induction h with
  | start => exact fun _ he => nomatch he
  | step hrun hseq _ _ ih =>
      intro e he
      rcases List.mem_cons.mp he with rfl | he
      · obtain ⟨st, hresolves, hst⟩ := hrun.resolves hm hseq
        rw [hst]
        exact hresolves.settles.terminal
      · exact ih e he

namespace Reconciler

variable {s : ModelSet} {past : List (RawFrame × StepReport)} {r : Reconciler} {n : String}
  {e : RawFrame × StepReport}

theorem Run.terminal_iff (h : Run s past r) (he : e ∈ past) {st : FieldStep} {m : FieldModel}
    (hst : e.2.fields.get? n = some st) (hm : s.get? n = some m) : st.isTerminal = true ↔
      st.outcome.isAccepted = true ∧ ∃ v, st.value = some v ∧ m.terminal = some v := by
  obtain ⟨t, hist, -, hfield, hshare⟩ := h.field hm
  obtain ⟨x, hx, rfl⟩ := exists_of_share hshare he hst
  exact hfield.terminal_iff (ModelSet.validate_of_get? hm) x hx

theorem Run.ends_iff (h : Run s past r) (he : e ∈ past) : n ∈ e.2.terminal ↔ e.2.Ends s n := by
  rw [StepReport.mem_terminal_iff]
  constructor
  · rintro ⟨st, hst, hterminal⟩
    obtain ⟨m, hm⟩ := h.field_of_mem he hst
    obtain ⟨hacc, v, hv, hend⟩ := (h.terminal_iff he hst hm).mp hterminal
    exact ⟨m, st, v, hm, hst, hacc, hv, hend⟩
  · rintro ⟨m, st, v, hm, hst, hacc, hv, hend⟩
    exact ⟨st, hst, (h.terminal_iff he hst hm).mpr ⟨hacc, v, hv, hend⟩⟩

theorem Run.not_ends (h : Run s past r) (he : e ∈ past) (hnone : e.2.terminal = []) :
    ¬ e.2.Ends s n := by
  rw [← h.ends_iff he, hnone]
  exact List.not_mem_nil

theorem Run.ends_of_terminal (h : Run s past r) (he : e ∈ past) {field : String}
    {fields : List String} (hterminal : e.2.terminal = field :: fields) :
    e.2.Ends s field ∧ ∀ n, e.2.Ends s n → field ≤ n := by
  have hord := e.2.terminal_ordered
  rw [hterminal] at hord
  refine ⟨(h.ends_iff he).mp (hterminal ▸ List.mem_cons_self ..), fun n hn => ?_⟩
  have hmem := (h.ends_iff he).mpr hn
  rw [hterminal] at hmem
  rcases List.mem_cons.mp hmem with rfl | hmem
  · exact String.le_refl _
  · exact String.not_lt.mp (String.lt_asymm ((List.pairwise_cons.mp hord).1 n hmem))

end Reconciler

namespace TimelineBuilder

variable {s : ModelSet} {past past' : List (RawFrame × StepReport)}
  {frames frames' rest rest' : List RawFrame} {b : TimelineBuilder} {r r' : Reconciler}
  {t t' : Timeline} {quality quality' : QualityReport}

theorem pushAll_run (h : (TimelineBuilder.new s).pushAll frames = .ok b) :
    ∃ past rest, Run s past rest b ∧ (past.map (·.1)).reverse ++ rest = frames := by
  rw [pushAll_eq] at h
  cases hpushes : (TimelineBuilder.new s).pushes frames with
  | error e =>
      rw [hpushes] at h
      cases h
  | ok x =>
      rw [hpushes] at h
      cases h
      obtain ⟨past, rest, hrun, -, hframes⟩ := Run.start.pushes rfl hpushes
      exact ⟨past, rest, hrun, hframes⟩

namespace Assembled

theorem endsWhere_of_common (h : Reconciler.Run s past r) (h' : Reconciler.Run s past' r')
    {x y : List RawFrame} (hcommon : (past.map (·.1)).reverse ++ x = (past'.map (·.1)).reverse ++ y) :
    Reconciler.EndsWhere past past' := by
  rintro later e older later' e' older' rfl rfl hlength hterminal
  have hframes := history_unique hcommon ((List.suffix_append later (e :: older)).map (·.1))
    ((List.suffix_append later' (e' :: older')).map (·.1)) (by simp [hlength])
  obtain ⟨r₀, hrun⟩ := h.older
  obtain ⟨r₀', hrun'⟩ := h'.older
  obtain ⟨heq, -⟩ := hrun.unique hrun' hframes
  rw [(List.cons.inj heq).1]
  exact hterminal

theorem same_past (h : Assembled s frames past r rest t quality)
    (h' : Assembled s frames' past' r' rest' t' quality') {x y : List RawFrame}
    (hcommon : (past.map (·.1)).reverse ++ x = (past'.map (·.1)).reverse ++ y)
    (hlong : past.length ≤ frames'.length) (hlong' : past'.length ≤ frames.length) :
    past = past' ∧ r = r' := by
  have hle := h.length_le h' hlong (endsWhere_of_common h.run h'.run hcommon)
  have hge := h'.length_le h hlong' (endsWhere_of_common h'.run h.run hcommon.symm)
  have hframes := history_unique hcommon List.suffix_rfl List.suffix_rfl (by simp; omega)
  exact h.run.unique h'.run hframes

theorem records_length (h : Assembled s frames past r rest t quality) :
    (StepReport.records (past.map (·.2)).reverse).length = past.length := by
  have hlength := congrArg List.length h.run.record_frames
  simpa using hlength

theorem take_states (h : Assembled s frames past r rest t quality) :
    t.toList.take past.length = StepReport.records (past.map (·.2)).reverse := by
  rw [h.states, List.take_left' h.records_length]

theorem drop_states (h : Assembled s frames past r rest t quality) :
    t.toList.drop past.length =
      rest.map (replay · (StepReport.lastFields (past.map (·.2)).reverse)) := by
  rw [h.states, List.drop_left' h.records_length]

theorem truncated (h : Assembled s frames past r rest t quality) (hadm : Admissible s frames) :
    ∃ t₀ quality₀, assemble s (past.map (·.1)).reverse = .ok (t₀, quality₀) ∧
      t₀.toList = t.toList.take past.length := by
  have hadm₀ : Admissible s (past.map (·.1)).reverse := by
    rw [← h.stream] at hadm
    exact ⟨(List.pairwise_append.mp hadm.ordered).1,
      fun f hf => hadm.known f (List.mem_append_left _ hf)⟩
  obtain ⟨t₀, quality₀, h₀⟩ := assemble_ok_iff_admissible.mpr hadm₀
  obtain ⟨past₀, r₀, rest₀, hall₀⟩ := assembled h₀
  have hlength := h.length_eq
  have hlength₀ := hall₀.length_eq
  rw [List.length_reverse, List.length_map] at hlength₀
  have hcommon := (List.append_nil (past.map (·.1)).reverse).trans hall₀.stream.symm
  obtain ⟨rfl, rfl⟩ := h.same_past hall₀ hcommon (by simp) (by omega)
  obtain rfl : rest₀ = [] := List.append_right_eq_self.mp hall₀.stream
  refine ⟨t₀, quality₀, h₀, ?_⟩
  rw [hall₀.states, h.take_states]
  exact List.append_nil _

theorem unignored_eq (h : Assembled s frames past r rest t quality)
    (h' : Assembled s frames' past r rest' t' quality') (hlength : frames.length = frames'.length) :
    quality'.unignored = quality.unignored := by
  have hfields : (quality'.fields.map fun _ f => { f with ignoredAfterFreeze := 0 }) =
      quality.fields.map fun _ f => { f with ignoredAfterFreeze := 0 } := by
    refine Table.ext_of_keys ?_ fun n hn => ?_
    · rw [Table.keys_map, Table.keys_map, h.names, h'.names]
    · rw [Table.keys_map, h'.names] at hn
      obtain ⟨m, hm⟩ := ModelSet.mem_names_iff.mp hn
      obtain ⟨track, hist, ht, -, hshare⟩ := h.run.field hm
      rw [Table.get?_map, Table.get?_map, h.field n m track hist hm ht hshare,
        h'.field n m track hist hm ht hshare]
      rfl
  rw [QualityReport.unignored, QualityReport.unignored, hfields, h.framesIn, h'.framesIn,
    h.framesOut, h'.framesOut, h.frozenAt, h'.frozenAt, hlength]

theorem admissible_later (h : Assembled s frames past r rest t quality)
    (hadm : Admissible s frames) (hframes : rest'.map (·.frame) = rest.map (·.frame))
    (hknown : ∀ f ∈ rest', f.Known s) : Admissible s ((past.map (·.1)).reverse ++ rest') := by
  rw [← h.stream] at hadm
  refine ⟨?_, fun f hf => ?_⟩
  · have hord := List.pairwise_map.mpr hadm.ordered
    rw [List.map_append, ← hframes, ← List.map_append] at hord
    exact List.pairwise_map.mp hord
  · rcases List.mem_append.mp hf with hf | hf
    · exact hadm.known f (List.mem_append_left _ hf)
    · exact hknown f hf

theorem timeline_eq (h : Assembled s frames past r rest t quality)
    (h' : Assembled s frames' past r rest' t' quality')
    (hsame : rest'.map (fun f => (f.frame, f.timestamp)) =
      rest.map (fun f => (f.frame, f.timestamp))) : t' = t := by
  have hreplay (l : List RawFrame) (values : Table Reading) : l.map (replay · values) =
      (l.map fun f => (f.frame, f.timestamp)).map
        fun f => ⟨f.1, f.2, values, values.map fun _ _ => .frozen⟩ := by
    simp [List.map_map, Function.comp_def, replay]
  have hlist : t'.toList = t.toList := by rw [h.states, h'.states, hreplay, hreplay, hsame]
  obtain ⟨states⟩ := t
  obtain ⟨states'⟩ := t'
  exact congrArg Timeline.mk (Array.toList_inj.mp hlist)

theorem irrelevant (h : Assembled s frames past r rest t quality) (hadm : Admissible s frames)
    (hsame : rest'.map (fun f => (f.frame, f.timestamp)) =
      rest.map (fun f => (f.frame, f.timestamp)))
    (hknown : ∀ f ∈ rest', f.Known s) :
    ∃ quality', assemble s ((past.map (·.1)).reverse ++ rest') = .ok (t, quality') ∧
      quality'.unignored = quality.unignored := by
  have hlength : rest'.length = rest.length := by simpa using congrArg List.length hsame
  have hframes : rest'.map (·.frame) = rest.map (·.frame) := by
    simpa [List.map_map, Function.comp_def] using congrArg (List.map (·.1)) hsame
  obtain ⟨t', quality', h'⟩ :=
    assemble_ok_iff_admissible.mpr (h.admissible_later hadm hframes hknown)
  obtain ⟨past', r', rest'', hall'⟩ := assembled h'
  have hlong := h.length_eq
  have hlong' := hall'.length_eq
  rw [List.length_append, List.length_reverse, List.length_map] at hlong'
  obtain ⟨rfl, rfl⟩ := h.same_past hall' hall'.stream.symm (by simp) (by omega)
  obtain rfl : rest'' = rest' := List.append_cancel_left hall'.stream
  obtain rfl := h.timeline_eq hall' hsame
  refine ⟨quality', h', h.unignored_eq hall' ?_⟩
  rw [← h.length_eq, ← hall'.length_eq, hlength]

end Assembled

end TimelineBuilder

structure Freezes (s : ModelSet) (past : List (RawFrame × StepReport)) (rest : List RawFrame)
    (b : TimelineBuilder) (t : Timeline) (quality : QualityReport) (field : String)
    (x : CorrectedState) : Prop where
  first : ∃ last older, past = last :: older ∧ last.2.Ends s field ∧
    (∀ n, last.2.Ends s n → field ≤ n) ∧ (∀ e ∈ older, ∀ n, ¬ e.2.Ends s n) ∧
    x.frame = last.1.frame
  session : b.session = .frozen x.frame field x.fields
  frozenAt : quality.frozenAt = some x.frame
  record : (t.toList.take past.length).getLast? = some x
  later : ∀ y ∈ t.toList.drop past.length,
    y.fields = x.fields ∧ ∀ n ∈ s.names, y.provenance.get? n = some .frozen
  truncated : ∃ t₀ quality₀, assemble s (past.map (·.1)).reverse = .ok (t₀, quality₀) ∧
    t₀.toList = t.toList.take past.length
  irrelevant : ∀ rest' : List RawFrame,
    rest'.map (fun f => (f.frame, f.timestamp)) = rest.map (fun f => (f.frame, f.timestamp)) →
    (∀ f ∈ rest', f.Known s) → ∃ quality',
      assemble s ((past.map (·.1)).reverse ++ rest') = .ok (t, quality') ∧
        quality'.unignored = quality.unignored

namespace TimelineBuilder.Assembled

variable {s : ModelSet} {older : List (RawFrame × StepReport)} {last : RawFrame × StepReport}
  {frames rest : List RawFrame} {b : TimelineBuilder} {r : Reconciler} {t : Timeline}
  {quality : QualityReport} {field : String} {fields : List String}

theorem freezes (h : Assembled s frames (last :: older) r rest t quality)
    (hadm : Admissible s frames) (hterminal : last.2.terminal = field :: fields)
    (hfrozen : b.session = .frozen last.2.frame field last.2.record.fields) :
    Freezes s (last :: older) rest b t quality field last.2.record := by
  obtain ⟨hends, hleast⟩ := h.run.ends_of_terminal (List.mem_cons_self ..) hterminal
  obtain ⟨hframe, -, hkeys⟩ := h.run.report_shape (List.mem_cons_self ..)
  have hfields : StepReport.lastFields ((last :: older).map (·.2)).reverse =
      last.2.record.fields := by
    rw [List.map_cons, List.reverse_cons, StepReport.lastFields_concat]
  refine ⟨⟨last, older, rfl, hends, hleast, ?_, hframe⟩, hfrozen, ?_, ?_, ?_, h.truncated hadm,
    fun rest' => h.irrelevant hadm⟩
  · exact fun e he n => h.run.not_ends (List.mem_cons_of_mem _ he) (h.goesOn e he)
  · rw [h.frozenAt, List.head?_cons, Option.filter_some, if_pos (by simp [hterminal])]
    exact congrArg some hframe.symm
  · rw [h.take_states, List.map_cons, List.reverse_cons, StepReport.records_concat,
      List.getLast?_concat]
  · intro y hy
    rw [h.drop_states, hfields] at hy
    obtain ⟨f, -, rfl⟩ := List.mem_map.mp hy
    refine ⟨rfl, fun n hn => ?_⟩
    rw [← hkeys] at hn
    obtain ⟨st, hst⟩ := Table.mem_keys_iff.mp hn
    rw [TimelineBuilder.replay, Table.get?_map, StepReport.record, Table.get?_map, hst]
    rfl

end TimelineBuilder.Assembled

theorem pushAll_freezes {s : ModelSet} {frames : List RawFrame} {b : TimelineBuilder}
    {t : Timeline} {quality : QualityReport}
    (hpush : (TimelineBuilder.new s).pushAll frames = .ok b)
    (hfinish : b.finish = .ok (t, quality)) :
    ∃ past r rest, Reconciler.Run s past r ∧ (past.map (·.1)).reverse ++ rest = frames ∧
      ((b.session = .active ∧ quality.frozenAt = none ∧ rest = [] ∧
          ∀ e ∈ past, ∀ n, ¬ e.2.Ends s n) ∨
        ∃ field x, Freezes s past rest b t quality field x) := by
  have hassemble : assemble s frames = .ok (t, quality) := by
    rw [assemble, hpush]
    exact hfinish
  have hadm := assemble_ok_iff_admissible.mp ⟨t, quality, hassemble⟩
  obtain ⟨past, rest, hrun, rfl⟩ := TimelineBuilder.pushAll_run hpush
  obtain ⟨r, hall⟩ := hrun.assembled hfinish
  refine ⟨past, r, rest, hall.run, rfl, ?_⟩
  rcases hrun.session with ⟨hactive, hrest, hnone⟩ |
    ⟨last, older, field, fields, rfl, hterminal, -, hfrozen⟩
  · refine .inl ⟨hactive, ?_, hrest, fun e he n => hall.run.not_ends he (hnone e he)⟩
    rw [hall.frozenAt]
    cases past with
    | nil => rfl
    | cons e older => simp [hnone e (List.mem_cons_self ..)]
  · exact .inr ⟨field, last.2.record, hall.freezes hadm hterminal hfrozen⟩

theorem pushAll_freezes_gold : ∃ b t quality past rest x,
    (TimelineBuilder.new
        (.single { FieldModel.boundedDelta "gold" 1 with terminal := some (.int 9) } rfl)).pushAll
        [.showing 1 "gold" 5, .showing 3 "gold" 9, .showing 4 "gold" 9, .showing 5 "gold" 5,
          .new 6 0] = .ok b ∧
      b.finish = .ok (t, quality) ∧
      (past.map (·.1)).reverse ++ rest = [.showing 1 "gold" 5, .showing 3 "gold" 9,
        .showing 4 "gold" 9, .showing 5 "gold" 5, .new 6 0] ∧
      Freezes (.single { FieldModel.boundedDelta "gold" 1 with terminal := some (.int 9) } rfl)
        past rest b t quality "gold" x ∧
      x.frame = 4 ∧ t.series "gold" = [some (.int 5), some (.int 9), some (.int 9),
        some (.int 9), some (.int 9)] := by
  have hrun : ∃ b t quality values,
      (TimelineBuilder.new
          (.single { FieldModel.boundedDelta "gold" 1 with terminal := some (.int 9) } rfl)).pushAll
          [.showing 1 "gold" 5, .showing 3 "gold" 9, .showing 4 "gold" 9, .showing 5 "gold" 5,
            .new 6 0] = .ok b ∧
        b.finish = .ok (t, quality) ∧ b.session = .frozen 4 "gold" values ∧
        t.series "gold" = [some (.int 5), some (.int 9), some (.int 9),
          some (.int 9), some (.int 9)] :=
    ⟨_, _, _, _, rfl, rfl, rfl, rfl⟩
  obtain ⟨b, t, quality, values, hpush, hfinish, hsession, hseries⟩ := hrun
  obtain ⟨past, r, rest, -, hframes, ⟨hactive, -⟩ | ⟨field, x, hfreezes⟩⟩ :=
    pushAll_freezes hpush hfinish
  · cases hactive.symm.trans hsession
  · have hsame := hfreezes.session.symm.trans hsession
    obtain ⟨hframe, rfl, -⟩ := SessionState.frozen.inj hsame
    exact ⟨b, t, quality, past, rest, x, hpush, hfinish, hframes, hfreezes, hframe, hseries⟩

end GameTimeline
