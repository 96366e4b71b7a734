import GameTimeline.Proofs.Reconcile.Determinism
import GameTimeline.Proofs.Timeline.Tally
import GameTimeline.Proofs.Timeline.Truth

namespace GameTimeline

namespace StepReport

variable {report : StepReport} {n : String}

theorem mem_terminal_iff :
    n ∈ report.terminal ↔ ∃ st, report.fields.get? n = some st ∧ st.isTerminal = true := by
  simp [terminal, Table.get?_eq_some_iff]

theorem terminal_ordered (report : StepReport) : report.terminal.Pairwise (· < ·) :=
  List.pairwise_map.mpr (report.fields.ordered.filter _)

end StepReport

namespace Reconciler

variable {s : ModelSet} {past : List (RawFrame × StepReport)} {r r' : Reconciler} {f : RawFrame}
  {report : StepReport} {e : RawFrame × StepReport}

theorem timestamp_of_step (h : r.step f = .ok (r', report)) : report.timestamp = f.timestamp := by
  have hcheck := check_of_step h
  simp only [step, hcheck, bind, Except.bind, pure, Except.pure, Except.ok.injEq,
    Prod.mk.injEq] at h
  obtain ⟨-, rfl⟩ := h
  rfl

theorem Run.report_shape (h : Run s past r) (he : e ∈ past) :
    e.2.frame = e.1.frame ∧ e.2.timestamp = e.1.timestamp ∧ e.2.fields.keys = s.names := by
  induction h with
  | start => cases he
  | @step past r r' f report hrun hstep ih =>
      rcases List.mem_cons.mp he with rfl | he
      · have hst := stepped_of_step hstep
        refine ⟨hst.frame, timestamp_of_step hstep, ?_⟩
        rw [hst.fields, Table.keys_map]
        exact hrun.sound.names
      · exact ih he
  | refused _ _ ih => exact ih he

theorem Run.field_of_mem (h : Run s past r) (he : e ∈ past) {n : String} {st : FieldStep}
    (hst : e.2.fields.get? n = some st) : ∃ m, s.get? n = some m := by
  rw [← ModelSet.mem_names_iff, ← (h.report_shape he).2.2]
  exact Table.mem_keys_iff.mpr ⟨st, hst⟩

theorem exists_of_share {n : String} {hist : List (Observation × FieldStep)} {st : FieldStep}
    (hshare : List.Forall₂ (Share n) past hist) (he : e ∈ past)
    (hst : e.2.fields.get? n = some st) : ∃ x ∈ hist, x.2 = st := by
  obtain ⟨x, hx, hs⟩ := exists_of_forall₂ hshare.flip he
  exact ⟨x, hx, Option.some.inj (hs.step.symm.trans hst)⟩

def EndsWhere (past past' : List (RawFrame × StepReport)) : Prop :=
  ∀ later e older later' e' older', past = later ++ e :: older → past' = later' ++ e' :: older' →
    older.length = older'.length → e'.2.terminal ≠ [] → e.2.terminal ≠ []

end Reconciler

namespace TimelineBuilder

variable {s : ModelSet} {past : List (RawFrame × StepReport)} {rest : List RawFrame}
  {b b' : TimelineBuilder} {n : String} {m : FieldModel} {t : Timeline} {quality : QualityReport}
  {hist : List (Observation × FieldStep)}

theorem finish_eq_ok (h : b.finish = .ok (t, quality)) :
    b.poisoned = false ∧ t = b.expireAll.closeAll.1.closed ∧
      quality = { b.expireAll.quality with framesOut := t.size } := by
  rw [finish] at h
  split at h
  · cases h
  · cases h
    exact ⟨Bool.eq_false_iff.mpr ‹_›, rfl, rfl⟩

theorem Run.cleared (h : Run s past rest b) (hfrozen : b.session.isFrozen = true)
    (hm : s.get? n = some m) :
    ∃ t, b.reconciler.tracks.get? n = some t ∧ t.current.pending = [] := by
  induction h with
  | start => cases hfrozen
  | @played past rest b b' f r' report states hrun hactive hstep hpush ih =>
      rcases settled_of_push hactive hstep hpush with ⟨-, rfl⟩ | ⟨field, -, -, rfl⟩
      · rw [closeFinal_session, takeReport_session] at hfrozen
        have hactive' : SessionState.isFrozen b.session = true := hfrozen
        rw [hactive] at hactive'
        cases hactive'
      · obtain ⟨t, -, ht, -⟩ := ((hrun.playing hactive).run.step hstep).field hm
        refine ⟨t.clear.1, ?_, by rw [Track.clear_current]⟩
        have hrec := takeReport_reconciler { b with reconciler := r' } report
        show ((TimelineBuilder.takeReport { b with reconciler := r' } report).reconciler.tracks.map
          fun _ t => t.clear.1).get? n = _
        rw [hrec, Table.get?_map, ht]
        rfl
  | replayed _ hfrozen' hpush ih =>
      rw [(replayed_of_push hfrozen' hpush).2.2]
      exact ih hfrozen'
  | refused _ hpush ih =>
      have hrec : ∀ {b : TimelineBuilder}, b.healed.reconciler = b.reconciler := rfl
      rw [← hrec, healed_of_refused hpush]
      exact ih (session_of_refused hpush ▸ hfrozen)

theorem Run.tally_frozen (h : Run s past rest b) (hfrozen : b.session.isFrozen = true) :
    ∃ r, Reconciler.Run s past r ∧ ∀ n m t hist, s.get? n = some m →
      r.tracks.get? n = some t → List.Forall₂ (Reconciler.Share n) past hist →
      b.quality.fields.get? n = some (((Track.tally hist).expire t.current.pending.length).ignore
        (rest.countP fun f => (f.reading n).isSome)) := by
  induction h with
  | start => cases hfrozen
  | @played past rest b b' f r' report states hrun hactive hstep hpush ih =>
      rcases settled_of_push hactive hstep hpush with ⟨-, rfl⟩ | ⟨field, -, -, rfl⟩
      · rw [closeFinal_session, takeReport_session] at hfrozen
        have hactive' : SessionState.isFrozen b.session = true := hfrozen
        rw [hactive] at hactive'
        cases hactive'
      · refine ⟨r', (hrun.playing hactive).run.step hstep, fun n m t hist hm ht hshare => ?_⟩
        cases hshare with
        | @cons _ x _ hist hx hshare =>
            have hq := hrun.tally_played hactive hstep hx.step
              (hrun.tally_active hactive hm hshare) hshare (o := x.1)
            have hrec := takeReport_reconciler { b with reconciler := r' } report
            generalize { b with reconciler := r' }.takeReport report = taken at hq hrec
            have ht' : (taken.freeze report field).reconciler.tracks.get? n = some t := hrec ▸ ht
            have hfrozen' : (taken.freeze report field).quality.fields.get? n =
              some (Track.tally ((x.1, x.2) :: hist)) := hq
            have hrest : rest = [] := by
              rcases hrun.session with ⟨-, hrest, -⟩ | ⟨e, _, _, _, -, -, -, hover⟩
              · exact hrest
              · cases hactive.symm.trans hover
            have hend := expireAll_get? ht'
            rw [hfrozen'] at hend
            rw [hrest]
            exact hend
  | @replayed past rest b b' f states _ hfrozen' hpush ih =>
      obtain ⟨r, hrun, hfields⟩ := ih hfrozen'
      refine ⟨r, hrun, fun n m t hist hm ht hshare => ?_⟩
      have hold : b.quality.addFrame.fields.get? n = _ := hfields n m t hist hm ht hshare
      rw [(replayed_of_push hfrozen' hpush).2.1, QualityReport.addIgnored_get?, hold,
        Option.map_some, FieldQuality.ignore_ignore, List.countP_append, List.countP_singleton]
  | refused _ hpush ih =>
      rw [quality_of_refused hpush]
      exact ih (session_of_refused hpush ▸ hfrozen)

structure Assembled (s : ModelSet) (frames : List RawFrame) (past : List (RawFrame × StepReport))
    (r : Reconciler) (rest : List RawFrame) (t : Timeline) (quality : QualityReport) : Prop where
  run : Reconciler.Run s past r
  stream : (past.map (·.1)).reverse ++ rest = frames
  states : t.toList = StepReport.records (past.map (·.2)).reverse ++
    rest.map (replay · (StepReport.lastFields (past.map (·.2)).reverse))
  goesOn : ∀ e ∈ past.tail, e.2.terminal = []
  ends : rest ≠ [] → ∃ e ∈ past.head?, e.2.terminal ≠ []
  frozenAt : quality.frozenAt = (past.head?.filter (·.2.terminal ≠ [])).map (·.1.frame)
  framesIn : quality.framesIn = frames.length
  framesOut : quality.framesOut = frames.length
  names : quality.fields.keys = s.names
  field : ∀ n m t hist, s.get? n = some m → r.tracks.get? n = some t →
    List.Forall₂ (Reconciler.Share n) past hist → quality.fields.get? n =
      some (((Track.tally hist).expire t.current.pending.length).ignore
        (rest.countP fun f => (f.reading n).isSome))

theorem Run.finished (h : Run s past rest b) (hfinish : b.finish = .ok (t, quality)) :
    t.toList = StepReport.records (past.map (·.2)).reverse ++
      rest.map (replay · (StepReport.lastFields (past.map (·.2)).reverse)) := by
  obtain ⟨hsound, -, -⟩ := finish_eq_ok hfinish
  have hphase := h.phase
  rw [healed_of_sound hsound] at hphase
  rcases hphase with ⟨rfl, hplaying⟩ | hover
  · obtain ⟨t', quality', hfinish', ht⟩ := finish_of_sound hsound hplaying.ordered
    cases hfinish.symm.trans hfinish'
    rw [ht, hplaying.emitted]
    exact (List.append_nil _).symm
  · have hemitted : b.emitted = b.closed.toList := by
      rw [emitted, hover.ended.nothing_open, List.append_nil]
    obtain ⟨t', quality', hfinish', ht⟩ :=
      finish_of_sound hsound (hemitted ▸ hover.ended.ordered)
    cases hfinish.symm.trans hfinish'
    rw [ht, hemitted]
    exact hover.closed

theorem Run.frozenAt (h : Run s past rest b) :
    b.quality.frozenAt = (past.head?.filter (·.2.terminal ≠ [])).map (·.1.frame) := by
  have hphase := h.phase
  rcases h.session with ⟨hactive, -, hnone⟩ | ⟨e, older, field, fields, rfl, hterminal, -, hfrozen⟩
  · have hunfrozen : b.quality.frozenAt = none := (h.playing hactive).unfrozen
    rw [hunfrozen]
    cases past with
    | nil => rfl
    | cons e older => simp [hnone e (List.mem_cons_self ..)]
  · have hover := hphase.resolve_left fun hplaying => by
      cases hfrozen.symm.trans hplaying.2.session
    have hat : b.quality.frozenAt = some e.1.frame := hover.frozenAt
    rw [hat, List.head?_cons, Option.filter_some, if_pos (by simp [hterminal])]
    rfl

theorem Run.field_finished (h : Run s past rest b) :
    ∃ r, Reconciler.Run s past r ∧ ∀ n m t hist, s.get? n = some m →
      r.tracks.get? n = some t → List.Forall₂ (Reconciler.Share n) past hist →
      b.expireAll.quality.fields.get? n =
        some (((Track.tally hist).expire t.current.pending.length).ignore
          (rest.countP fun f => (f.reading n).isSome)) := by
  cases hfrozen : b.session.isFrozen with
  | false =>
      obtain ⟨hactive, rfl⟩ : b.session = .active ∧ rest = [] := by
        rcases h.session with ⟨hactive, hrest, -⟩ | ⟨e, _, _, _, -, -, -, hover⟩
        · exact ⟨hactive, hrest⟩
        · rw [hover] at hfrozen
          cases hfrozen
      refine ⟨b.reconciler, (h.playing hactive).run, fun n m t hist hm ht hshare => ?_⟩
      rw [expireAll_get? ht, h.tally_active hactive hm hshare]
      rfl
  | true =>
      obtain ⟨r, hrun, hfields⟩ := h.tally_frozen hfrozen
      refine ⟨r, hrun, fun n m t hist hm ht hshare => ?_⟩
      obtain ⟨t', ht', hnone⟩ := h.cleared hfrozen hm
      rw [expireAll_get? ht', hfields n m t hist hm ht hshare, hnone]
      rfl

theorem Run.assembled (h : Run s past rest b) (hfinish : b.finish = .ok (t, quality)) :
    ∃ r, Assembled s ((past.map (·.1)).reverse ++ rest) past r rest t quality := by
  obtain ⟨-, -, hquality⟩ := finish_eq_ok hfinish
  have hexpire := expireAll_alike b
  obtain ⟨hframesIn, hnames⟩ := h.alike
  have hstates := h.finished hfinish
  obtain ⟨r, hrun, hfields⟩ := h.field_finished
  have hsize : t.size = past.length + rest.length := by
    have hrecords := congrArg List.length (StepReport.records_frames (past.map (·.2)).reverse)
    have hlength := congrArg List.length hstates
    simp only [List.length_map, List.length_reverse] at hrecords
    simpa [hrecords, Timeline.toList, Timeline.size] using hlength
  refine ⟨r, hrun, rfl, hstates, ?_, ?_, ?_, ?_, ?_, ?_, ?_⟩
  · rcases h.session with ⟨-, -, hnone⟩ | ⟨e, older, _, _, rfl, -, hnone, -⟩
    · exact fun e he => hnone e (List.mem_of_mem_tail he)
    · exact hnone
  · intro hrest
    rcases h.session with ⟨-, hnil, -⟩ | ⟨e, older, field, fields, rfl, hterminal, -, -⟩
    · exact absurd hnil hrest
    · exact ⟨e, rfl, by simp [hterminal]⟩
  · rw [hquality, ← h.frozenAt]
    exact hexpire.frozenAt
  · rw [hquality]
    refine hexpire.framesIn.trans (hframesIn.trans ?_)
    simp
  · rw [hquality]
    refine hsize.trans ?_
    simp
  · rw [hquality]
    exact hexpire.keys.trans hnames
  · rw [hquality]
    exact hfields

theorem assembled {frames : List RawFrame} (h : assemble s frames = .ok (t, quality)) :
    ∃ past r rest, Assembled s frames past r rest t quality := by
  obtain ⟨past, rest, b, hrun, -, rfl, hfinish⟩ := assemble_run h
  obtain ⟨r, hall⟩ := hrun.assembled hfinish
  exact ⟨past, r, rest, hall⟩

namespace Assembled

variable {frames frames' : List RawFrame} {r r' : Reconciler} {rest' : List RawFrame}
  {past' : List (RawFrame × StepReport)} {t' : Timeline} {quality' : QualityReport}
  {s' : ModelSet} {e : RawFrame × StepReport} {f : RawFrame}

theorem length_eq (h : Assembled s frames past r rest t quality) :
    past.length + rest.length = frames.length := by
  rw [← h.stream]
  simp

theorem length_le (h : Assembled s frames past r rest t quality)
    (h' : Assembled s' frames' past' r' rest' t' quality') (hlong : past.length ≤ frames'.length)
    (hends : Reconciler.EndsWhere past past') : past.length ≤ past'.length := by
  by_contra hlt
  have hrest : rest' ≠ [] := by
    rintro rfl
    have hlength := h'.length_eq
    rw [List.length_nil] at hlength
    omega
  obtain ⟨e', he', hterminal⟩ := h'.ends hrest
  obtain ⟨older', rfl⟩ := List.head?_eq_some_iff.mp he'
  rw [List.length_cons] at hlt
  -- the entry that stands where the shorter run ends is not the last one of the longer run
  obtain ⟨later, e, older, rfl, hlength⟩ :
      ∃ later e older, past = later ++ e :: older ∧ older.length = older'.length := by
    have hdrop : (past.drop (past.length - (older'.length + 1))).length = older'.length + 1 := by
      rw [List.length_drop]
      omega
    obtain ⟨e, older, heq⟩ := List.exists_cons_of_length_eq_add_one hdrop
    refine ⟨past.take (past.length - (older'.length + 1)), e, older, ?_, ?_⟩
    · rw [← heq, List.take_append_drop]
    · rw [heq, List.length_cons] at hdrop
      omega
  refine hends later e older [] e' older' rfl rfl hlength hterminal (h.goesOn e ?_)
  cases later with
  | nil =>
      rw [List.nil_append, List.length_cons] at hlt
      omega
  | cons x later => exact List.mem_append_right _ (List.mem_cons_self ..)

theorem frame_le_head (h : Assembled s frames past r rest t quality) (he : e ∈ past) :
    ∃ last, past.head?.map (·.1.frame) = some last ∧ e.1.frame ≤ last := by
  rw [← h.run.lastFrame]
  exact h.run.entry_le_last he

end Assembled

end TimelineBuilder

def QualityReport.plays (q : QualityReport) (frame : Nat) : Bool := q.frozenAt.all (frame ≤ ·)

theorem QualityReport.plays_of_frozen {q : QualityReport} {last : Nat}
    (h : q.frozenAt = some last) : q.plays = fun frame => decide (frame ≤ last) := by
  funext frame
  rw [plays, h, Option.all_some]

namespace TimelineBuilder.Assembled

variable {s : ModelSet} {frames rest : List RawFrame} {past : List (RawFrame × StepReport)}
  {r : Reconciler} {t : Timeline} {quality : QualityReport} {e : RawFrame × StepReport}
  {f : RawFrame}

theorem plays_of_mem (h : Assembled s frames past r rest t quality) (he : e ∈ past) :
    quality.plays e.1.frame = true := by
  obtain ⟨last, hlast, hle⟩ := h.frame_le_head he
  rw [QualityReport.plays, h.frozenAt, Option.all_eq_true]
  intro a ha
  obtain ⟨x, hx, rfl⟩ := Option.map_eq_some_iff.mp ha
  rw [(Option.filter_eq_some_iff.mp hx).1] at hlast
  cases hlast
  exact decide_eq_true hle

theorem not_plays_of_mem (h : Assembled s frames past r rest t quality)
    (hord : frames.Pairwise (·.frame < ·.frame)) (hf : f ∈ rest) :
    quality.plays f.frame = false := by
  obtain ⟨e, he, hterminal⟩ := h.ends (List.ne_nil_of_mem hf)
  have hfrozen : quality.frozenAt = some e.1.frame := by
    rw [h.frozenAt, Option.mem_def.mp he, Option.filter_some, if_pos (by simp [hterminal])]
    rfl
  rw [← h.stream] at hord
  have hlt : e.1.frame < f.frame := (List.pairwise_append.mp hord).2.2 e.1
    (List.mem_reverse.mpr (List.mem_map_of_mem (List.mem_of_head? he))) f hf
  simp [QualityReport.plays, hfrozen, hlt]

theorem filter_plays (h : Assembled s frames past r rest t quality)
    (hord : frames.Pairwise (·.frame < ·.frame)) :
    frames.filter (quality.plays ·.frame) = (past.map (·.1)).reverse ∧
      frames.filter (!quality.plays ·.frame) = rest := by
  have hpast : ∀ f ∈ (past.map (·.1)).reverse, quality.plays f.frame = true := by
    intro f hf
    obtain ⟨e, he, rfl⟩ := List.mem_map.mp (List.mem_reverse.mp hf)
    exact h.plays_of_mem he
  have hrest : ∀ f ∈ rest, quality.plays f.frame = false := fun f hf => h.not_plays_of_mem hord hf
  rw [← h.stream, List.filter_append, List.filter_append]
  constructor
  · rw [List.filter_eq_self.mpr hpast, List.filter_eq_nil_iff.mpr (by simpa using hrest),
      List.append_nil]
  · rw [List.filter_eq_nil_iff.mpr (by simpa using hpast), List.filter_eq_self.mpr
      (by simpa using hrest), List.nil_append]

theorem filter_states (h : Assembled s frames past r rest t quality)
    (hord : frames.Pairwise (·.frame < ·.frame)) :
    t.toList.filter (quality.plays ·.frame) = StepReport.records (past.map (·.2)).reverse := by
  have hrecords : ∀ x ∈ StepReport.records (past.map (·.2)).reverse,
      quality.plays x.frame = true := by
    intro x hx
    have hmem : x.frame ∈ (past.map (·.1.frame)).reverse := by
      rw [← h.run.record_frames]
      exact List.mem_map_of_mem hx
    obtain ⟨e, he, hframe⟩ := List.mem_map.mp (List.mem_reverse.mp hmem)
    rw [← hframe]
    exact h.plays_of_mem he
  have hafter : ∀ x ∈ rest.map (replay · (StepReport.lastFields (past.map (·.2)).reverse)),
      ¬ quality.plays x.frame = true := by
    intro x hx
    obtain ⟨f, hf, rfl⟩ := List.mem_map.mp hx
    exact Bool.not_eq_true _ ▸ h.not_plays_of_mem hord hf
  rw [h.states, List.filter_append, List.filter_eq_self.mpr hrecords,
    List.filter_eq_nil_iff.mpr hafter, List.append_nil]

end TimelineBuilder.Assembled

end GameTimeline
