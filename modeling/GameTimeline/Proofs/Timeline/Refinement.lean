import GameTimeline.Proofs.Timeline.Complete

namespace GameTimeline

structure Entry where
  value : Reading
  tag : Provenance
  deriving DecidableEq

namespace Entry

def own (st : FieldStep) : Entry :=
  match st.value, st.outcome with
  | none, _ => ⟨none, .unresolved⟩
  | some v, .accepted => ⟨some v, .observed⟩
  | some v, .confirmed => ⟨some v, .observed⟩
  | some v, _ => ⟨some v, .held⟩

def overwrite (frame : Nat) (e : Entry) : Option Revision → Entry
  | none => e
  | some rev => if rev.first ≤ frame ∧ frame ≤ rev.last then ⟨some rev.value, .revised⟩ else e

def cell (frame : Nat) (e : Entry) : Cell := ⟨frame, e.value, some e.tag⟩

theorem cell_own (frame : Nat) (st : FieldStep) :
    (own st).cell frame = ⟨frame, st.value, some st.provenance⟩ := by
  obtain ⟨value, outcome, isTerminal, revision, discarded⟩ := st
  cases value with
  | none => rfl
  | some v => cases outcome <;> rfl

theorem cell_overwrite (frame : Nat) (e : Entry) (st : FieldStep) :
    (overwrite frame e st.revision).cell frame = (e.cell frame).revise st := by
  cases hrev : st.revision with
  | none => rw [Cell.revise_of_none hrev, overwrite]
  | some rev =>
      rw [Cell.revise, hrev, overwrite]
      by_cases hcovered : rev.first ≤ frame ∧ frame ≤ rev.last
      · have hcovers : rev.covers frame = true := by simp [Revision.covers, hcovered]
        simp [cell, hcovered, hcovers]
      · have hcovers : rev.covers frame = false := by
          simpa [Revision.covers] using hcovered
        simp [cell, hcovered, hcovers]

end Entry

structure Row where
  frame : Nat
  timestamp : Float
  entries : Table Entry

namespace Row

def ofReport (report : StepReport) (later : List StepReport) : Row :=
  ⟨report.frame, report.timestamp, report.fields.map fun n st =>
    later.foldl (fun e q => e.overwrite report.frame ((q.fields.get? n).bind (·.revision)))
      (Entry.own st)⟩

def ofReports : List StepReport → List Row
  | [] => []
  | report :: later => ofReport report later :: ofReports later

def replay (last : StepReport) (f : RawFrame) : Row :=
  ⟨f.frame, f.timestamp, last.fields.map fun _ st => ⟨st.value, .frozen⟩⟩

def state (row : Row) : CorrectedState :=
  ⟨row.frame, row.timestamp, row.entries.map fun _ e => e.value, row.entries.map fun _ e => e.tag⟩

theorem state_cell {row : Row} {n : String} {e : Entry} (h : row.entries.get? n = some e) :
    row.state.cell n = e.cell row.frame := by
  rw [CorrectedState.cell, CorrectedState.value, state, Table.get?_map, Table.get?_map, h]
  rfl

variable {s : ModelSet} {report : StepReport} {later : List StepReport}

theorem state_full {row : Row} (h : row.entries.keys = s.names) : row.state.Full s :=
  ⟨(Table.keys_map _ _).trans h, (Table.keys_map _ _).trans h⟩

theorem cell_foldl_overwrite {n : String} (hlater : ∀ q ∈ later, n ∈ q.fields.keys)
    (x : CorrectedState) (e : Entry) (he : x.cell n = e.cell x.frame) :
    (x.reviseAll (later.flatMap StepReport.revisions)).cell n =
      (later.foldl (fun e q => e.overwrite x.frame ((q.fields.get? n).bind (·.revision))) e).cell
        x.frame := by
  induction later generalizing x e with
  | nil => exact he
  | cons q later ih =>
      obtain ⟨st, hst⟩ := Table.mem_keys_iff.mp (hlater q (List.mem_cons_self ..))
      -- of the revisions of a report only that of the field itself reaches its cell
      have hnext : (x.reviseAll q.revisions).cell n =
          (e.overwrite x.frame st.revision).cell (x.reviseAll q.revisions).frame := by
        rw [CorrectedState.cell_reviseAll hst, he, CorrectedState.reviseAll_frame,
          Entry.cell_overwrite]
      have hrest := ih (fun q hq => hlater q (List.mem_cons_of_mem _ hq)) _ _ hnext
      rw [CorrectedState.reviseAll_frame] at hrest
      rw [List.flatMap_cons, CorrectedState.reviseAll_append, hrest, List.foldl_cons, hst]
      rfl

theorem state_ofReport (hkeys : report.fields.keys = s.names)
    (hlater : ∀ q ∈ later, q.fields.keys = s.names) :
    report.record.reviseAll (later.flatMap StepReport.revisions) = (ofReport report later).state := by
  have hrecord : (report.record.reviseAll (later.flatMap StepReport.revisions)).Full s := by
    refine (StepReport.record_full hkeys).reviseAll fun e he => ?_
    obtain ⟨q, hq, he⟩ := List.mem_flatMap.mp he
    exact StepReport.mem_names_of_revisions (hlater q hq) e he
  have hrow : (ofReport report later).state.Full s :=
    state_full ((Table.keys_map _ _).trans hkeys)
  refine hrecord.ext hrow (CorrectedState.reviseAll_stamp ..) fun n hn => ?_
  obtain ⟨st, hst⟩ := Table.mem_keys_iff.mp (hkeys ▸ hn)
  obtain ⟨htag, hvalue⟩ := StepReport.record_shows hst
  have hown : report.record.cell n = (Entry.own st).cell report.record.frame := by
    rw [CorrectedState.cell, htag, hvalue, Entry.cell_own]
  rw [cell_foldl_overwrite (fun q hq => hlater q hq ▸ hn) _ _ hown, state_cell]
  · rfl
  · rw [ofReport, Table.get?_map, hst]
    rfl

theorem states_ofReports {reports : List StepReport}
    (h : ∀ q ∈ reports, q.fields.keys = s.names) :
    StepReport.records reports = (ofReports reports).map state := by
  induction reports with
  | nil => rfl
  | cons report later ih =>
      have hlater : ∀ q ∈ later, q.fields.keys = s.names :=
        fun q hq => h q (List.mem_cons_of_mem _ hq)
      rw [StepReport.records, ofReports, List.map_cons, ih hlater,
        state_ofReport (h report (List.mem_cons_self ..)) hlater]

theorem state_replay (last : StepReport) (f : RawFrame) :
    TimelineBuilder.replay f last.record.fields = (replay last f).state := by
  simp only [TimelineBuilder.replay, StepReport.record, state, replay, Table.map_map]

end Row

namespace Reconciler

def untilTerminal (r : Reconciler) :
    List RawFrame → Except InputError (List StepReport × List RawFrame)
  | [] => .ok ([], [])
  | f :: rest => do
      let (r', report) ← r.step f
      if report.fields.values.any (·.isTerminal) then pure ([report], rest)
      else
        let (later, after) ← r'.untilTerminal rest
        pure (report :: later, after)

theorem untilTerminal_eq (r : Reconciler) (frames : List RawFrame) :
    r.untilTerminal frames = r.reports frames := by
  induction frames generalizing r with
  | nil => rfl
  | cons f rest ih =>
      cases hstep : r.step f with
      | error e => rw [untilTerminal, reports, hstep]; rfl
      | ok x =>
          obtain ⟨r', report⟩ := x
          have hterminal : report.fields.values.any (·.isTerminal) = true ↔
              report.terminal ≠ [] := by
            simp [StepReport.terminal, Table.values]
          by_cases hends : report.terminal = []
          · rw [reports_of_active hstep hends, untilTerminal, hstep, ← ih r']
            have hgoes : ¬ report.fields.values.any (·.isTerminal) = true :=
              fun h => hterminal.mp h hends
            simp only [bind, Except.bind, if_neg hgoes]
            cases r'.untilTerminal rest <;> rfl
          · rw [reports_of_terminal hstep hends, untilTerminal, hstep]
            simp only [bind, Except.bind, if_pos (hterminal.mpr hends)]
            rfl

theorem reports_shape {s : ModelSet} {frames rest : List RawFrame} {reports : List StepReport}
    (h : (Reconciler.new s).reports frames = .ok (reports, rest)) :
    (∀ q ∈ reports, q.fields.keys = s.names) ∧ (reports = [] → rest = []) := by
  obtain ⟨past, r, hrun, hpast, hrest⟩ := run_of_reports Run.start h
  rw [List.map_nil, List.reverse_nil, List.nil_append] at hpast
  constructor
  · intro q hq
    obtain ⟨e, he, rfl⟩ := List.mem_map.mp (List.mem_reverse.mp (hpast ▸ hq))
    exact (hrun.report_shape he).2.2
  · rintro rfl
    exact hrest (by simpa using hpast)

end Reconciler

def batch (s : ModelSet) (frames : List RawFrame) : Except InputError (List Row) := do
  let (reports, rest) ← (Reconciler.new s).untilTerminal frames
  pure (Row.ofReports reports ++
    reports.getLast?.elim [] fun last => rest.map (Row.replay last))

theorem batch_of_reports {s : ModelSet} {frames rest : List RawFrame} {reports : List StepReport}
    (h : (Reconciler.new s).reports frames = .ok (reports, rest)) :
    ∃ rows, batch s frames = .ok rows ∧ rows.map Row.state = StepReport.records reports ++
      rest.map (TimelineBuilder.replay · (StepReport.lastFields reports)) := by
  obtain ⟨hkeys, hrest⟩ := Reconciler.reports_shape h
  refine ⟨_, by rw [batch, Reconciler.untilTerminal_eq, h]; rfl, ?_⟩
  rw [List.map_append, ← Row.states_ofReports hkeys]
  refine congrArg (StepReport.records reports ++ ·) ?_
  rcases List.eq_nil_or_concat reports with rfl | ⟨before, last, rfl⟩
  · rw [hrest rfl]
    rfl
  · rw [List.concat_eq_append, StepReport.lastFields_concat, List.getLast?_concat]
    simp only [Option.elim_some, List.map_map]
    exact List.map_congr_left fun f _ => (Row.state_replay last f).symm

theorem TimelineBuilder.incremental_eq_batch {s : ModelSet} {frames : List RawFrame}
    {b : TimelineBuilder} {returned : List (List CorrectedState)}
    (h : (TimelineBuilder.new s).pushes frames = .ok (b, returned)) :
    ∃ t quality rows, b.finish = .ok (t, quality) ∧ assemble s frames = .ok (t, quality) ∧
      batch s frames = .ok rows ∧ t.toList = rows.map Row.state ∧
      returned.flatten ++ b.openStates = t.toList ∧
      t.toList.map (·.frame) = frames.map (·.frame) ∧
      t.toList.Pairwise (·.frame < ·.frame) := by
  obtain ⟨reports, rest, hreports, hemits, t, quality, hfinish, ht⟩ := pushes_reports h
  obtain ⟨rows, hbatch, hrows⟩ := batch_of_reports hreports
  refine ⟨t, quality, rows, hfinish, ?_, hbatch, ?_, ?_, ?_, ?_⟩
  · rw [assemble, pushAll_eq, h]
    exact hfinish
  · rw [ht, hemits.emitted, hrows]
  · rw [ht, emitted, hemits.returned]
    rfl
  · rw [ht, hemits.emitted, List.map_append, StepReport.records_frames, List.map_map,
      ← Reconciler.reports_frames hreports]
    rfl
  · rw [ht, hemits.emitted]
    exact hemits.ordered

def goldToNine : ModelSet :=
  .single { FieldModel.boundedDelta "gold" 1 with terminal := some (.int 9) } rfl

def goldRun : List RawFrame :=
  [.new 0 0, .showing 1 "gold" 5, .new 2 0, .showing 3 "gold" 9, .showing 4 "gold" 9,
    .showing 5 "gold" 1]

theorem TimelineBuilder.incremental_eq_batch_gold :
    ∃ (b : TimelineBuilder) (returned : List (List CorrectedState)) (t : Timeline)
      (rows : List Row),
      (TimelineBuilder.new goldToNine).pushes goldRun = .ok (b, returned) ∧
      returned.map (·.map (·.cell "gold")) =
        [[⟨0, none, some .unresolved⟩], [⟨1, some (.int 5), some .observed⟩],
          [⟨2, some (.int 5), some .held⟩], [],
          [⟨3, some (.int 9), some .revised⟩, ⟨4, some (.int 9), some .observed⟩],
          [⟨5, some (.int 9), some .frozen⟩]] ∧
      batch goldToNine goldRun = .ok rows ∧
      rows.map (·.entries.get? "gold") =
        [some ⟨none, .unresolved⟩, some ⟨some (.int 5), .observed⟩, some ⟨some (.int 5), .held⟩,
          some ⟨some (.int 9), .revised⟩, some ⟨some (.int 9), .observed⟩,
          some ⟨some (.int 9), .frozen⟩] ∧
      returned.flatten ++ b.openStates = t.toList ∧ t.toList = rows.map Row.state := by
  obtain ⟨b, returned, h, hreturned⟩ : ∃ b returned,
      (TimelineBuilder.new goldToNine).pushes goldRun = .ok (b, returned) ∧
      returned.map (·.map (·.cell "gold")) = _ := ⟨_, _, rfl, rfl⟩
  obtain ⟨t, quality, rows, -, -, hbatch, hstates, hall, -⟩ := incremental_eq_batch h
  refine ⟨b, returned, t, rows, h, hreturned, hbatch, ?_, hall, hstates⟩
  cases hbatch
  rfl

end GameTimeline
