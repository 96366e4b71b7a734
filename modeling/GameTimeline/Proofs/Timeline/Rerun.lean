import GameTimeline.Proofs.Timeline.Echo
import GameTimeline.Proofs.Timeline.Freeze

namespace GameTimeline

theorem StepReport.records_of_unrevised {past : List (RawFrame × StepReport)}
    (h : ∀ e ∈ past, e.2.revisions = []) :
    records (past.map (·.2)).reverse = (past.map (·.2.record)).reverse := by
  induction past with
  | nil => rfl
  | cons e past ih =>
      have hnone : (records (past.map (·.2)).reverse).map (·.reviseAll e.2.revisions) =
          records (past.map (·.2)).reverse := by
        rw [h e (List.mem_cons_self ..)]
        exact List.map_id _
      rw [List.map_cons, List.reverse_cons, records_concat, hnone,
        ih fun x hx => h x (List.mem_cons_of_mem _ hx), List.map_cons, List.reverse_cons]

def CorrectedState.content (x : CorrectedState) : Nat × Float × Table Reading :=
  (x.frame, x.timestamp, x.fields)

namespace Track

variable {m : FieldModel} {past past' later : List (Observation × FieldStep)} {t : Track}
  {e : Observation × FieldStep} {v : FieldValue} {a : Nat}

theorem tally_of_repeats (h : List.Forall₂ Repeats past' past) :
    (tally past').discarded = 0 ∧ (tally past').suspect = 0 ∧ (tally past').revisedFrames = 0 := by
  induction h with
  | nil => exact ⟨rfl, rfl, rfl⟩
  | @cons e' e past' past he _ ih =>
      have hnone : past'.countP (e'.2.touches ·.1.frame) = 0 :=
        List.countP_eq_zero.mpr fun x _ => by simp [FieldStep.touches, he.revision]
      rw [tally, FieldQuality.take, FieldQuality.addUnresolved_eq, hnone, he.discarded, he.outcome]
      cases e.2.value.isSome <;> exact ih

theorem exists_of_lastAccepted (h : lastAccepted past = some (v, a)) :
    ∃ e ∈ past, e.2.outcome.isAccepted = true ∧ e.2.value = some v := by
  induction past with
  | nil => cases h
  | cons e past ih =>
      rw [lastAccepted] at h
      split at h
      · obtain ⟨w, hw, heq⟩ := Option.map_eq_some_iff.mp h
        cases heq
        exact ⟨e, List.mem_cons_self .., ‹_›, hw⟩
      · obtain ⟨x, hx, hacc, hv⟩ := ih h
        exact ⟨x, List.mem_cons_of_mem _ hx, hacc, hv⟩

theorem Run.taken_before (hm : m.validate = .ok ()) (h : Run m (e :: past) t)
    (hv : e.2.value = some v) :
    ∃ x ∈ e :: past, x.2.outcome.isAccepted = true ∧ x.2.value = some v := by
  obtain ⟨t₀, hrun, hseq, -, -, hst, -⟩ := h.of_cons
  have hex := hrun.explained hm
  have hmoves := hex.moves hm hseq
  rw [hst] at hmoves
  rcases hmoves.held_or_taken with ⟨-, -, hvalue, -⟩ | ⟨c, hacc, -, -, -⟩
  · rw [Belief.expire_value, hv] at hvalue
    obtain ⟨⟨w, a⟩, hacc, rfl⟩ := Option.map_eq_some_iff.mp hvalue.symm
    rw [hex.accepted] at hacc
    obtain ⟨x, hx, hxacc, hxv⟩ := exists_of_lastAccepted hacc
    exact ⟨x, List.mem_cons_of_mem _ hx, hxacc, hxv⟩
  · exact ⟨e, List.mem_cons_self .., hacc, hv⟩

theorem Steady.of_append (hsteady : Steady m (column (later ++ past)))
    (hnone : ∀ e ∈ later, e.2.revision = none) : Steady m (column past) := by
  induction later with
  | nil => exact hsteady
  | cons e later ih =>
      obtain ⟨o, st⟩ := e
      exact ih (hsteady.older (hnone _ (List.mem_cons_self ..)))
        fun x hx => hnone x (List.mem_cons_of_mem _ hx)

end Track

namespace Reconciler

variable {s : ModelSet} {past past' : List (RawFrame × StepReport)} {r r' : Reconciler}
  {n : String} {m : FieldModel} {hist hist' : List (Observation × FieldStep)}
  {e e' : RawFrame × StepReport}

def Steady (s : ModelSet) (past : List (RawFrame × StepReport)) : Prop :=
  ∀ n m hist, s.get? n = some m → List.Forall₂ (Share n) past hist →
    Track.Steady m (Track.column hist)

theorem echo_of_share (hshare : List.Forall₂ (Share n) past hist)
    (hframes : ∀ e ∈ past, e.2.frame = e.1.frame) (hshare' : List.Forall₂ (Share n) past' hist')
    (hecho : past'.map (·.1) = past.map (·.2.record.toRaw)) :
    List.Forall₂ Track.Echo hist' hist := by
  induction hshare generalizing past' hist' with
  | nil =>
      obtain rfl := List.map_eq_nil_iff.mp hecho
      cases hshare'
      exact .nil
  | @cons e x past hist hs _ ih =>
      cases hshare' with
      | nil => cases hecho
      | @cons e' x' past' hist' hs' hshare' =>
          obtain ⟨hone, hrest⟩ := List.cons.inj hecho
          have hframe := hframes e (List.mem_cons_self ..)
          refine .cons ⟨?_, ?_, ?_⟩ (ih (fun y hy => hframes y (List.mem_cons_of_mem _ hy))
            hshare' hrest)
          · rw [hs'.frame, hs.frame, ← hframe, show e'.1 = e.2.record.toRaw from hone]
            rfl
          · rw [hs'.reading, show e'.1 = e.2.record.toRaw from hone]
            exact StepReport.record_value hs.step
          · rw [hs'.confidence, show e'.1 = e.2.record.toRaw from hone]
            rfl

theorem Run.revisions_eq_nil (h : Run s past r)
    (hnone : ∀ n m, s.get? n = some m → ∃ hist, List.Forall₂ (Share n) past hist ∧
      ∀ x ∈ hist, x.2.revision = none) : ∀ e ∈ past, e.2.revisions = [] := by
  intro e he
  rw [List.eq_nil_iff_forall_not_mem]
  rintro ⟨n, rev⟩ hrev
  obtain ⟨st, hst, hrev⟩ := mem_revisions_iff.mp hrev
  obtain ⟨m, hm⟩ := h.field_of_mem he hst
  obtain ⟨hist, hshare, hfield⟩ := hnone n m hm
  obtain ⟨x, hx, rfl⟩ := exists_of_share hshare he hst
  cases (hfield x hx).symm.trans hrev

theorem Run.unrevised (h : Run s past r) (hsteady : Steady s past) :
    ∀ e ∈ past, e.2.revisions = [] := by
  refine h.revisions_eq_nil fun n m hm => ?_
  obtain ⟨t, hist, -, hfield, hshare⟩ := h.field hm
  exact ⟨hist, hshare, hfield.unrevised (ModelSet.validate_of_get? hm) (hsteady n m hist hm hshare)⟩

structure Reruns (s : ModelSet) (past past' : List (RawFrame × StepReport)) (r' : Reconciler) :
    Prop where
  origin : ∃ all r, Run s all r ∧ Steady s all ∧ past <:+ all
  run : Run s past' r'
  echo : past'.map (·.1) = past.map (·.2.record.toRaw)

structure Repeated (past past' : List (RawFrame × StepReport)) (r' : Reconciler) (n : String)
    (m : FieldModel) (hist hist' : List (Observation × FieldStep)) (t' : Track) : Prop where
  share : List.Forall₂ (Share n) past hist
  share' : List.Forall₂ (Share n) past' hist'
  track : r'.tracks.get? n = some t'
  field : ∃ t, Track.Run m hist t
  repeats : List.Forall₂ Track.Repeats hist' hist
  settled : t'.current.pending = []

namespace Reruns

theorem first (h : Reruns s past past' r') : ∃ r, Run s past r := by
  obtain ⟨_, _, hrun, -, later, rfl⟩ := h.origin
  exact hrun.older

theorem older (h : Reruns s (e :: past) (e' :: past') r') : ∃ r₀, Reruns s past past' r₀ := by
  obtain ⟨all, r, hrun, hsteady, hpast⟩ := h.origin
  obtain ⟨r₀, hrun', -⟩ := h.run.of_cons
  exact ⟨r₀, ⟨all, r, hrun, hsteady, (List.suffix_cons e past).trans hpast⟩, hrun',
    (List.cons.inj h.echo).2⟩

theorem field (h : Reruns s past past' r') (hm : s.get? n = some m) :
    ∃ hist hist' t', Repeated past past' r' n m hist hist' t' := by
  have hvalid := ModelSet.validate_of_get? hm
  obtain ⟨r₀, hfirst⟩ := h.first
  obtain ⟨_, r, hrun, hsteady, later, rfl⟩ := h.origin
  obtain ⟨t, whole, ht, hfield, hshare⟩ := hrun.field hm
  have hwhole := hsteady n m whole hm hshare
  have hshare : List.Forall₂ (Share n) past (whole.drop later.length) :=
    (List.forall₂_drop_append whole later past hshare.flip).flip
  rw [← List.take_append_drop later.length whole] at hfield hwhole
  generalize whole.take later.length = front at hfield hwhole
  generalize whole.drop later.length = hist at hfield hwhole hshare
  obtain ⟨t₀, hold⟩ := hfield.older
  have hnone := hfield.unrevised hvalid hwhole
  have hpast := hwhole.of_append fun x hx => hnone x (List.mem_append_left _ hx)
  obtain ⟨t', hist', ht', hfield', hshare'⟩ := h.run.field hm
  obtain ⟨hrepeats, htrusts⟩ := hold.echoes hvalid hfield' hpast
    (echo_of_share hshare (fun e he => (hfirst.report_shape he).1) hshare' h.echo)
  exact ⟨hist, hist', t', hshare, hshare', ht', ⟨t₀, hold⟩, hrepeats, htrusts.pending⟩

theorem head (h : Reruns s (e :: past) (e' :: past') r') (hm : s.get? n = some m) :
    ∃ t x x' hist, Share n e x ∧ Share n e' x' ∧ Track.Repeats x' x ∧
      List.Forall₂ (Share n) past hist ∧ Track.Run m (x :: hist) t := by
  obtain ⟨hist, hist', t', hshare, hshare', -, ⟨t, hrun⟩, hrepeats, -⟩ := h.field hm
  cases hshare with
  | cons hs hshare =>
      cases hshare' with
      | cons hs' _ =>
          cases hrepeats with
          | cons hone _ => exact ⟨t, _, _, _, hs, hs', hone, hshare, hrun⟩

theorem ends_iff (h : Reruns s (e :: past) (e' :: past') r')
    (hgoes : ∀ x ∈ past, ¬ x.2.Ends s n) : e'.2.Ends s n ↔ e.2.Ends s n := by
  constructor
  · rintro ⟨m, st', v, hm, hst', -, hv, hend⟩
    obtain ⟨t, x, x', hist, hs, hs', hone, hshare, hrun⟩ := h.head hm
    obtain rfl := Option.some.inj (hst'.symm.trans hs'.step)
    -- the value was taken up when it was first shown, and would have ended the game there
    obtain ⟨y, hy, hacc, hyv⟩ :=
      hrun.taken_before (ModelSet.validate_of_get? hm) (hone.value.symm.trans hv)
    rcases List.mem_cons.mp hy with rfl | hy
    · exact ⟨m, y.2, v, hm, hs.step, hacc, hyv, hend⟩
    · obtain ⟨z, hz, hsz⟩ := exists_of_forall₂ hshare hy
      exact absurd ⟨m, y.2, v, hm, hsz.step, hacc, hyv, hend⟩ (hgoes z hz)
  · rintro ⟨m, st, v, hm, hst, -, hv, hend⟩
    obtain ⟨t, x, x', hist, hs, hs', hone, -, -⟩ := h.head hm
    obtain rfl := Option.some.inj (hst.symm.trans hs.step)
    have hacc : x'.2.outcome.isAccepted = true := by
      rw [hone.outcome, hv]
      rfl
    exact ⟨m, x'.2, v, hm, hs'.step, hacc, hone.value.trans hv, hend⟩

theorem terminal_iff (h : Reruns s (e :: past) (e' :: past') r')
    (hgoes : ∀ x ∈ past, x.2.terminal = []) : e'.2.terminal ≠ [] ↔ e.2.terminal ≠ [] := by
  obtain ⟨r, hrun⟩ := h.first
  have hends : ∀ n, n ∈ e'.2.terminal ↔ n ∈ e.2.terminal := by
    intro n
    rw [h.run.ends_iff (List.mem_cons_self ..), hrun.ends_iff (List.mem_cons_self ..)]
    exact h.ends_iff fun x hx => hrun.not_ends (List.mem_cons_of_mem _ hx) (hgoes x hx)
  simp [List.eq_nil_iff_forall_not_mem, hends]

theorem content_head (h : Reruns s (e :: past) (e' :: past') r') :
    e'.2.record.content = e.2.record.content := by
  obtain ⟨hone, -⟩ := List.cons.inj h.echo
  obtain ⟨r, hrun⟩ := h.first
  obtain ⟨-, -, hkeys⟩ := hrun.report_shape (List.mem_cons_self ..)
  obtain ⟨hframe, htimestamp, hkeys'⟩ := h.run.report_shape (List.mem_cons_self ..)
  have hfields : e'.2.record.fields = e.2.record.fields := by
    refine Table.ext_of_keys ?_ fun n hn => ?_
    · rw [StepReport.record, StepReport.record, Table.keys_map, Table.keys_map, hkeys, hkeys']
    · rw [StepReport.record, Table.keys_map, hkeys'] at hn
      obtain ⟨m, hm⟩ := ModelSet.mem_names_iff.mp hn
      obtain ⟨-, x, x', -, hs, hs', hrepeats, -, -⟩ := h.head hm
      rw [StepReport.record, StepReport.record, Table.get?_map, Table.get?_map, hs.step, hs'.step]
      exact congrArg some hrepeats.value
  have hframe' : e'.2.frame = e.2.frame := hframe.trans (congrArg RawFrame.frame hone)
  have htimestamp' : e'.2.timestamp = e.2.timestamp :=
    htimestamp.trans (congrArg RawFrame.timestamp hone)
  exact Prod.ext hframe' (Prod.ext htimestamp' hfields)

theorem content (h : Reruns s past past' r') :
    past'.map (·.2.record.content) = past.map (·.2.record.content) := by
  induction past generalizing past' r' with
  | nil =>
      obtain rfl := List.map_eq_nil_iff.mp h.echo
      rfl
  | cons e past ih =>
      cases past' with
      | nil => cases h.echo
      | cons e' past' =>
          obtain ⟨r₀, hold⟩ := h.older
          rw [List.map_cons, List.map_cons, ih hold, h.content_head]

theorem unrevised (h : Reruns s past past' r') : ∀ e ∈ past', e.2.revisions = [] := by
  refine h.run.revisions_eq_nil fun n m hm => ?_
  obtain ⟨hist, hist', t', hall⟩ := h.field hm
  refine ⟨hist', hall.share', fun x hx => ?_⟩
  obtain ⟨y, -, hrepeats⟩ := exists_of_forall₂ hall.repeats.flip hx
  exact hrepeats.revision

end Reruns

end Reconciler

def Timeline.Steady (s : ModelSet) (t : Timeline) : Prop :=
  ∀ n m, s.get? n = some m →
    t.toList.IsChain fun x y => m.Near (x.value n) (y.value n) (y.frame - x.frame)

theorem StepReport.lastFields_eq (reports : List StepReport) :
    lastFields reports = (reports.map (·.record.content.2.2)).getLast?.getD .empty := by
  rw [lastFields, List.getLast?_map]
  cases reports.getLast? <;> rfl

namespace TimelineBuilder.Assembled

variable {s : ModelSet} {frames frames' rest rest' : List RawFrame}
  {past past' : List (RawFrame × StepReport)} {r r' : Reconciler} {t t' : Timeline}
  {quality quality' : QualityReport} {x : CorrectedState}

theorem frames_eq (h : Assembled s frames past r rest t quality) :
    t.toList.map (·.frame) = frames.map (·.frame) := by
  rw [h.states, List.map_append, h.run.record_frames, ← h.stream, List.map_append, List.map_map,
    List.map_reverse, List.map_map]
  rfl

theorem steady (h : Assembled s frames past r rest t quality) (hsteady : t.Steady s) :
    Reconciler.Steady s past := by
  intro n m hist hm hshare
  have hchain := hsteady n m hm
  rw [h.states] at hchain
  have hcells := hchain.left_of_append
  have hmap := (List.isChain_map (R := fun c later : Cell =>
    m.Near c.value later.value (later.frame - c.frame)) (CorrectedState.cell · n)).mpr hcells
  rw [h.run.cells hshare, List.isChain_reverse] at hmap
  exact hmap

theorem toRawFrames_eq (h : Assembled s frames past r rest t quality)
    (hnone : ∀ e ∈ past, e.2.revisions = []) :
    t.toRawFrames = (past.map (·.2.record.toRaw)).reverse ++
      rest.map fun f => (replay f (StepReport.lastFields (past.map (·.2)).reverse)).toRaw := by
  rw [Timeline.toRawFrames, h.states, StepReport.records_of_unrevised hnone, List.map_append,
    List.map_reverse, List.map_map, List.map_map]
  rfl

theorem keys_of_mem (h : Assembled s frames past r rest t quality)
    (hnone : ∀ e ∈ past, e.2.revisions = []) (hx : x ∈ t.toList) : x.fields.keys = s.names := by
  have hrecord {e : RawFrame × StepReport} (he : e ∈ past) : e.2.record.fields.keys = s.names := by
    rw [StepReport.record, Table.keys_map, (h.run.report_shape he).2.2]
  rw [h.states, StepReport.records_of_unrevised hnone] at hx
  rcases List.mem_append.mp hx with hx | hx
  · obtain ⟨e, he, rfl⟩ := List.mem_map.mp (List.mem_reverse.mp hx)
    exact hrecord he
  · obtain ⟨f, hf, rfl⟩ := List.mem_map.mp hx
    obtain ⟨e, he, -⟩ := h.ends (List.ne_nil_of_mem hf)
    obtain ⟨older, rfl⟩ := List.head?_eq_some_iff.mp he
    rw [replay, List.map_cons, List.reverse_cons, StepReport.lastFields_concat]
    exact hrecord (List.mem_cons_self ..)

theorem admissible_rerun (h : Assembled s frames past r rest t quality)
    (hadm : Admissible s frames) (hnone : ∀ e ∈ past, e.2.revisions = []) :
    Admissible s t.toRawFrames := by
  have hord := List.pairwise_map.mpr hadm.ordered
  rw [← h.frames_eq] at hord
  refine ⟨List.pairwise_map.mpr (List.pairwise_map.mp hord), fun f hf => ?_⟩
  obtain ⟨x, hx, rfl⟩ := List.mem_map.mp hf
  exact fun k hk => h.keys_of_mem hnone hx ▸ hk

theorem reruns (h : Assembled s frames past r rest t quality) (hsteady : t.Steady s)
    (h' : Assembled s t.toRawFrames past' r' rest' t' quality') :
    Reconciler.Reruns s past past' r' ∧ rest' =
      rest.map fun f => (replay f (StepReport.lastFields (past.map (·.2)).reverse)).toRaw := by
  have hpast := h.steady hsteady
  have hstream := h'.stream.trans (h.toRawFrames_eq (h.run.unrevised hpast))
  have hsize : t.toRawFrames.length = frames.length := by
    have hlength := congrArg List.length h.frames_eq
    simpa [Timeline.toRawFrames] using hlength
  have hlength := h.length_eq
  have hlength' := h'.length_eq
  have hterminal : ∀ later e older later' e' older', past = later ++ e :: older →
      past' = later' ++ e' :: older' → older.length = older'.length →
      (e'.2.terminal ≠ [] ↔ e.2.terminal ≠ []) := by
    rintro later e older later' e' older' rfl rfl hlength
    obtain ⟨r₀, hrun⟩ := h'.run.older
    have hsuffix := List.suffix_append later (e :: older)
    have hecho := history_unique hstream ((List.suffix_append later' (e' :: older')).map (·.1))
      (hsuffix.map (·.2.record.toRaw)) (by simp [hlength])
    have hreruns : Reconciler.Reruns s (e :: older) (e' :: older') r₀ :=
      ⟨⟨_, r, h.run, hpast, hsuffix⟩, hrun, hecho⟩
    refine hreruns.terminal_iff fun x hx => h.goesOn x ?_
    cases later with
    | nil => exact hx
    | cons y later => exact List.mem_append_right _ (List.mem_cons_of_mem _ hx)
  -- neither run can end before the other
  have hle : past.length ≤ past'.length := h.length_le h' (by omega)
    fun later e older later' e' older' hp hp' hlength =>
      (hterminal later e older later' e' older' hp hp' hlength).mp
  have hge : past'.length ≤ past.length := h'.length_le h (by omega)
    fun later' e' older' later e older hp' hp hlength =>
      (hterminal later e older later' e' older' hp hp' hlength.symm).mpr
  obtain ⟨hplayed, hrest⟩ := List.append_inj hstream (by simp; omega)
  exact ⟨⟨⟨past, r, h.run, hpast, List.suffix_rfl⟩, h'.run, List.reverse_injective hplayed⟩, hrest⟩

theorem frozenAt_rerun (h : Assembled s frames past r rest t quality)
    (h' : Assembled s frames' past' r' rest' t' quality')
    (hreruns : Reconciler.Reruns s past past' r') :
    quality'.frozenAt = quality.frozenAt := by
  rw [h.frozenAt, h'.frozenAt]
  cases past with
  | nil =>
      obtain rfl := List.map_eq_nil_iff.mp hreruns.echo
      rfl
  | cons e older =>
      cases past' with
      | nil => cases hreruns.echo
      | cons e' older' =>
          have hterminal := hreruns.terminal_iff h.goesOn
          have hframe : e'.1.frame = e.1.frame :=
            (congrArg RawFrame.frame (List.cons.inj hreruns.echo).1).trans
              (h.run.report_shape (List.mem_cons_self ..)).1
          simp only [List.head?_cons, Option.filter_some, hterminal]
          split
          · exact congrArg some hframe
          · rfl

theorem content_rerun (h : Assembled s frames past r rest t quality) (hsteady : t.Steady s)
    (h' : Assembled s t.toRawFrames past' r' rest' t' quality') :
    t'.toList.map (·.content) = t.toList.map (·.content) := by
  obtain ⟨hreruns, rfl⟩ := h.reruns hsteady h'
  have hcontent := hreruns.content
  have hlast : StepReport.lastFields (past'.map (·.2)).reverse =
      StepReport.lastFields (past.map (·.2)).reverse := by
    have hfields := congrArg (List.map (·.2.2)) hcontent
    rw [List.map_map, List.map_map] at hfields
    rw [StepReport.lastFields_eq, StepReport.lastFields_eq, List.map_reverse, List.map_reverse,
      List.map_map, List.map_map]
    exact congrArg (fun l => l.reverse.getLast?.getD .empty) hfields
  rw [h.states, h'.states, StepReport.records_of_unrevised (h.run.unrevised (h.steady hsteady)),
    StepReport.records_of_unrevised hreruns.unrevised, hlast, List.map_append, List.map_append,
    List.map_reverse, List.map_reverse, List.map_map, List.map_map, List.map_map, List.map_map,
    List.map_map]
  exact congrArg (fun l => l.reverse ++ _) hcontent

theorem clean_rerun (h' : Assembled s frames' past' r' rest' t' quality')
    (hreruns : Reconciler.Reruns s past past' r') {n : String} (hn : n ∈ s.names) :
    ∃ q, quality'.fields.get? n = some q ∧ q.discarded = 0 ∧ q.suspect = 0 ∧
      q.revisedFrames = 0 := by
  obtain ⟨m, hm⟩ := ModelSet.mem_names_iff.mp hn
  obtain ⟨hist, hist', track, hall⟩ := hreruns.field hm
  have hq := h'.field n m track hist' hm hall.track hall.share'
  rw [hall.settled] at hq
  exact ⟨_, hq, Track.tally_of_repeats hall.repeats⟩

end TimelineBuilder.Assembled

theorem assemble_idempotent {s : ModelSet} {frames : List RawFrame} {t : Timeline}
    {quality : QualityReport} (h : assemble s frames = .ok (t, quality)) (hsteady : t.Steady s) :
    ∃ t' quality', assemble s t.toRawFrames = .ok (t', quality') ∧
      t'.toList.map (·.content) = t.toList.map (·.content) ∧
      quality'.frozenAt = quality.frozenAt ∧ quality'.fields.keys = s.names ∧
      ∀ n ∈ s.names, ∃ q, quality'.fields.get? n = some q ∧ q.discarded = 0 ∧ q.suspect = 0 ∧
        q.revisedFrames = 0 := by
  have hadm := assemble_ok_iff_admissible.mp ⟨t, quality, h⟩
  obtain ⟨past, r, rest, hall⟩ := TimelineBuilder.assembled h
  have hnone := hall.run.unrevised (hall.steady hsteady)
  obtain ⟨t', quality', h'⟩ := assemble_ok_iff_admissible.mpr (hall.admissible_rerun hadm hnone)
  obtain ⟨past', r', rest', hall'⟩ := TimelineBuilder.assembled h'
  obtain ⟨hreruns, -⟩ := hall.reruns hsteady hall'
  exact ⟨t', quality', h', hall.content_rerun hsteady hall', hall.frozenAt_rerun hall' hreruns,
    hall'.names, fun n hn => hall'.clean_rerun hreruns hn⟩

theorem assemble_idempotent_gold : ∃ t quality t' quality' q,
    assemble (.single { FieldModel.boundedDelta "gold" 1 with terminal := some (.int 7) } rfl)
        [.new 0 0, .showing 1 "gold" 5, .showing 2 "gold" 9, .showing 3 "gold" 6, .new 4 0,
          .showing 5 "gold" 7, .showing 6 "gold" 2] = .ok (t, quality) ∧
      t.Steady (.single { FieldModel.boundedDelta "gold" 1 with terminal := some (.int 7) } rfl) ∧
      quality.frozenAt = some 5 ∧ quality.totalDiscarded = 1 ∧
      t.series "gold" = [none, some (.int 5), some (.int 5), some (.int 6), some (.int 6),
        some (.int 7), some (.int 7)] ∧
      assemble (.single { FieldModel.boundedDelta "gold" 1 with terminal := some (.int 7) } rfl)
        t.toRawFrames = .ok (t', quality') ∧
      t'.toList.map (·.content) = t.toList.map (·.content) ∧
      quality'.frozenAt = some 5 ∧ quality'.fields.get? "gold" = some q ∧
      q.discarded = 0 ∧ q.suspect = 0 ∧ q.revisedFrames = 0 := by
  have hrun : ∃ t quality,
      assemble (.single { FieldModel.boundedDelta "gold" 1 with terminal := some (.int 7) } rfl)
          [.new 0 0, .showing 1 "gold" 5, .showing 2 "gold" 9, .showing 3 "gold" 6, .new 4 0,
            .showing 5 "gold" 7, .showing 6 "gold" 2] = .ok (t, quality) ∧
        t.toList.map (fun x => (x.frame, x.value "gold")) = [(0, none), (1, some (.int 5)),
          (2, some (.int 5)), (3, some (.int 6)), (4, some (.int 6)), (5, some (.int 7)),
          (6, some (.int 7))] ∧
        quality.frozenAt = some 5 ∧ quality.totalDiscarded = 1 :=
    ⟨_, _, rfl, rfl, rfl, rfl⟩
  obtain ⟨t, quality, h, hshown, hfrozen, hdiscarded⟩ := hrun
  have hsteady : t.Steady
      (.single { FieldModel.boundedDelta "gold" 1 with terminal := some (.int 7) } rfl) := by
    intro n m hm
    obtain ⟨rfl, rfl⟩ := Prod.mk.inj (List.mem_singleton.mp (Table.get?_eq_some_iff.mp hm))
    have hchain := (List.isChain_map (R := fun x y : Nat × Reading =>
      FieldModel.Near { FieldModel.boundedDelta "gold" 1 with terminal := some (.int 7) } x.2 y.2
        (y.1 - x.1)) (l := t.toList) fun x => (x.frame, x.value "gold")).mp
    rw [hshown] at hchain
    exact hchain (by decide)
  obtain ⟨t', quality', h', hcontent, hfrozen', -, hclean⟩ := assemble_idempotent h hsteady
  obtain ⟨q, hq, hdone⟩ := hclean "gold" (List.mem_singleton_self _)
  have hseries := congrArg (List.map (·.2)) hshown
  rw [List.map_map] at hseries
  exact ⟨t, quality, t', quality', q, h, hsteady, hfrozen, hdiscarded, hseries, h', hcontent,
    hfrozen'.trans hfrozen, hq, hdone⟩

end GameTimeline
