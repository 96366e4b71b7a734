import GameTimeline.Proofs.Timeline.Column
import GameTimeline.Proofs.Timeline.Session
import GameTimeline.Proofs.Timeline.Upheld

namespace GameTimeline

namespace FieldQuality

def discard (q : FieldQuality) (ds : List Discard) : FieldQuality :=
  { q with
    suspectExpired := q.suspectExpired + Discard.count .suspectExpired ds
    suspectSuperseded := q.suspectSuperseded + Discard.count .suspectSuperseded ds
    lowConfidence := q.lowConfidence + Discard.count .lowConfidence ds }

def expire (q : FieldQuality) (readings : Nat) : FieldQuality :=
  { q with suspectExpired := q.suspectExpired + readings }

def ignore (q : FieldQuality) (readings : Nat) : FieldQuality :=
  { q with ignoredAfterFreeze := q.ignoredAfterFreeze + readings }

def take (q : FieldQuality) (st : FieldStep) (frames : Nat) : FieldQuality :=
  (((q.addRevised frames).discard st.discarded).addOutcome st.outcome).addUnresolved st.value

theorem foldl_addDiscard (ds : List Discard) (q : FieldQuality) :
    ds.foldl (fun q d => q.addDiscard d.reason) q = q.discard ds := by
  induction ds generalizing q with
  | nil => rfl
  | cons d ds ih =>
      rw [List.foldl_cons, ih]
      cases hd : d.reason <;>
        simp [addDiscard, discard, Discard.count, hd, Nat.add_assoc, Nat.add_comm]

theorem discard_ofPending (ps : List Pending) (q : FieldQuality) :
    q.discard (ps.map (.ofPending .suspectExpired)) = q.expire ps.length := by
  simp [discard, expire, Discard.count_ofPending]

theorem foldl_addIgnored {α : Type} (xs : List α) (q : FieldQuality) :
    xs.foldl (fun q _ => q.addIgnored) q = q.ignore xs.length := by
  induction xs generalizing q with
  | nil => rfl
  | cons x xs ih => rw [List.foldl_cons, ih, List.length_cons, ignore, ignore, addIgnored,
      Nat.add_assoc, Nat.add_comm 1]

theorem ignore_ignore (q : FieldQuality) (j k : Nat) : (q.ignore j).ignore k = q.ignore (j + k) := by
  simp [ignore, Nat.add_assoc]

end FieldQuality

namespace StepReport

variable {report : StepReport} {n : String} {st : FieldStep}

theorem named_discarded (h : report.fields.get? n = some st) :
    Table.named n report.discarded = st.discarded := by
  rw [discarded, Table.named_flatMap, Table.named_entries, h]
  simp

theorem named_revisions (h : report.fields.get? n = some st) :
    Table.named n report.revisions = st.revision.toList := by
  rw [revisions, Table.named_filterMap, Table.named_entries, h]
  cases hr : st.revision <;> simp [hr]

end StepReport

namespace QualityReport

theorem foldl_modify {β : Type} (g : β → FieldQuality → FieldQuality) (l : List (String × β))
    (q : QualityReport) :
    l.foldl (fun q e => q.modify e.1 (g e.2)) q =
      { q with fields := l.foldl (fun t e => t.modify e.1 (g e.2)) q.fields } := by
  induction l generalizing q with
  | nil => rfl
  | cons e l ih => rw [List.foldl_cons, ih, List.foldl_cons]; rfl

theorem foldl_modify_keys {β : Type} (g : β → FieldQuality → FieldQuality)
    (l : List (String × β)) (t : Table FieldQuality) :
    (l.foldl (fun t e => t.modify e.1 (g e.2)) t).keys = t.keys := by
  induction l generalizing t with
  | nil => rfl
  | cons e l ih => rw [List.foldl_cons, ih, Table.keys_modify]

structure Alike (q q' : QualityReport) : Prop where
  framesIn : q'.framesIn = q.framesIn
  frozenAt : q'.frozenAt = q.frozenAt
  keys : q'.fields.keys = q.fields.keys

theorem Alike.trans {q q' q'' : QualityReport} (h : Alike q q') (h' : Alike q' q'') :
    Alike q q'' :=
  ⟨h'.framesIn.trans h.framesIn, h'.frozenAt.trans h.frozenAt, h'.keys.trans h.keys⟩

theorem alike_foldl {β : Type} (g : β → FieldQuality → FieldQuality) (l : List (String × β))
    (q : QualityReport) : Alike q (l.foldl (fun q e => q.modify e.1 (g e.2)) q) := by
  rw [foldl_modify]
  exact ⟨rfl, rfl, foldl_modify_keys g l q.fields⟩

variable {n : String} {st : FieldStep}

theorem foldl_modify_get? {β : Type} (g : β → FieldQuality → FieldQuality)
    (l : List (String × β)) (q : QualityReport) (n : String) :
    (l.foldl (fun q e => q.modify e.1 (g e.2)) q).fields.get? n =
      (q.fields.get? n).map fun c => (Table.named n l).foldl (fun c x => g x c) c := by
  rw [foldl_modify]
  exact Table.get?_foldl_modify n g l q.fields

theorem addDiscards_get? (q : QualityReport) (ds : List (String × Discard)) (n : String) :
    (q.addDiscards ds).fields.get? n = (q.fields.get? n).map (·.discard (Table.named n ds)) := by
  refine (foldl_modify_get? (fun d q => q.addDiscard d.reason) ds q n).trans ?_
  simp only [FieldQuality.foldl_addDiscard]

theorem addSteps_get? {report : StepReport} (h : report.fields.get? n = some st)
    (q : QualityReport) : (q.addSteps report).fields.get? n =
      (q.fields.get? n).map fun q => (q.addOutcome st.outcome).addUnresolved st.value := by
  refine (foldl_modify_get? (fun st q => (q.addOutcome st.outcome).addUnresolved st.value)
    report.fields.entries q n).trans ?_
  rw [Table.named_entries, h]
  rfl

theorem addIgnored_get? (q : QualityReport) (f : RawFrame) (n : String) :
    (q.addIgnored f).fields.get? n =
      (q.fields.get? n).map (·.ignore (if (f.reading n).isSome then 1 else 0)) := by
  refine (foldl_modify_get? (fun _ q => q.addIgnored)
    (f.readings.entries.filter (·.2.isSome)) q n).trans ?_
  have hone (x : Option Reading) :
      (x.toList.filter Option.isSome).length = if x.join.isSome then 1 else 0 := by
    rcases x with _ | _ | v <;> simp
  simp only [FieldQuality.foldl_addIgnored, Table.named_filter n Option.isSome,
    Table.named_entries, RawFrame.reading, hone]
  rfl

end QualityReport

namespace Track

def tally : List (Observation × FieldStep) → FieldQuality
  | [] => .zero
  | e :: older => (tally older).take e.2 (older.countP (e.2.touches ·.1.frame))

end Track

namespace TimelineBuilder

variable {s : ModelSet} {past : List (RawFrame × StepReport)} {rest : List RawFrame}
  {b b' : TimelineBuilder} {r' : Reconciler} {f : RawFrame} {report : StepReport}
  {states : List CorrectedState} {n : String} {m : FieldModel} {st : FieldStep}
  {hist : List (Observation × FieldStep)}

theorem countP_applyRevision (b : TimelineBuilder) (e : String × Revision) (p : Nat → Bool) :
    (b.applyRevision e).openStates.countP (p ·.frame) = b.openStates.countP (p ·.frame) := by
  simp [applyRevision, List.countP_map, Function.comp_def]

theorem foldl_applyRevision_get? (es : List (String × Revision)) (b : TimelineBuilder)
    (n : String) : (es.foldl applyRevision b).quality.fields.get? n =
      (b.quality.fields.get? n).map (·.addRevised
        ((Table.named n es).foldr (fun rev k => b.openStates.countP (rev.covers ·.frame) + k) 0)) := by
  induction es generalizing b with
  | nil => simp [Table.named, FieldQuality.addRevised]
  | cons e es ih =>
      have hone : (b.applyRevision e).quality.fields.get? n = if n = e.1 then
          (b.quality.fields.get? n).map (·.addRevised (b.openStates.countP (e.2.covers ·.frame)))
          else b.quality.fields.get? n :=
        Table.get?_modify ..
      rw [List.foldl_cons, ih, hone, Table.named_cons]
      simp only [countP_applyRevision]
      by_cases he : e.1 = n
      · simp [he, Function.comp_def, FieldQuality.addRevised, Nat.add_assoc]
      · simp [he, Ne.symm he]

theorem takeReport_get? (h : report.fields.get? n = some st) (b : TimelineBuilder) :
    (b.takeReport report).quality.fields.get? n =
      (b.quality.fields.get? n).map (·.take st (b.openStates.countP (st.touches ·.frame))) := by
  have htouched : (Table.named n report.revisions).foldr
      (fun rev k => b.openStates.countP (rev.covers ·.frame) + k) 0 =
        b.openStates.countP (st.touches ·.frame) := by
    rw [StepReport.named_revisions h]
    cases hr : st.revision <;> simp [FieldStep.touches, hr]
  have hsteps : (b.takeReport report).quality.fields.get? n =
      ((((report.revisions.foldl applyRevision { b with quality := b.quality.addFrame }).quality
        ).addDiscards report.discarded).addSteps report).fields.get? n := rfl
  rw [hsteps, QualityReport.addSteps_get? h, QualityReport.addDiscards_get?,
    StepReport.named_discarded h, foldl_applyRevision_get?, htouched, Option.map_map,
    Option.map_map]
  rfl

theorem expireAll_get? {t : Track} (ht : b.reconciler.tracks.get? n = some t) :
    b.expireAll.quality.fields.get? n =
      (b.quality.fields.get? n).map (·.expire t.current.pending.length) := by
  have hpending : t.clear.2 = t.current.pending.map (.ofPending .suspectExpired) := by
    obtain ⟨_, b?⟩ := t
    cases b? <;> rfl
  have hnamed : Table.named n b.reconciler.expireAll.2 = t.clear.2 := by
    refine (Table.named_flatMap n (fun t : Track => t.clear.2) _).trans ?_
    rw [Table.named_entries, ht]
    simp
  have hquality : b.expireAll.quality = b.quality.addDiscards b.reconciler.expireAll.2 := rfl
  rw [hquality, QualityReport.addDiscards_get?, hnamed, hpending]
  simp only [FieldQuality.discard_ofPending]

theorem foldl_applyRevision_alike (es : List (String × Revision)) (b : TimelineBuilder) :
    QualityReport.Alike b.quality (es.foldl applyRevision b).quality := by
  induction es generalizing b with
  | nil => exact ⟨rfl, rfl, rfl⟩
  | cons e es ih =>
      have hone : QualityReport.Alike b.quality (b.applyRevision e).quality :=
        ⟨rfl, rfl, Table.keys_modify ..⟩
      exact hone.trans (ih _)

theorem takeReport_alike (b : TimelineBuilder) (report : StepReport) :
    QualityReport.Alike b.quality.addFrame (b.takeReport report).quality :=
  (foldl_applyRevision_alike report.revisions { b with quality := b.quality.addFrame }).trans
    ((QualityReport.alike_foldl (fun d q => q.addDiscard d.reason) report.discarded _).trans
      (QualityReport.alike_foldl
        (fun st q => (q.addOutcome st.outcome).addUnresolved st.value) report.fields.entries _))

theorem expireAll_alike (b : TimelineBuilder) :
    QualityReport.Alike b.quality b.expireAll.quality :=
  QualityReport.alike_foldl (fun d q => q.addDiscard d.reason) b.reconciler.expireAll.2 _

theorem addIgnored_alike (q : QualityReport) (f : RawFrame) :
    QualityReport.Alike q (q.addIgnored f) :=
  QualityReport.alike_foldl (fun _ q => q.addIgnored) _ q

theorem closeFinal_quality (b : TimelineBuilder) : b.closeFinal.1.quality = b.quality := by
  rw [closeFinal]
  split <;> rfl

theorem closeFinal_session (b : TimelineBuilder) : b.closeFinal.1.session = b.session := by
  rw [closeFinal]
  split <;> rfl

theorem takeReport_session (b : TimelineBuilder) (r : StepReport) :
    (b.takeReport r).session = b.session := by
  obtain ⟨quality, htake⟩ := takeReport_eq b r
  rw [htake]

theorem settled_of_push (hactive : b.session = .active)
    (hstep : b.reconciler.step f = .ok (r', report)) (hpush : b.push f = (b', .ok states)) :
    report.terminal = [] ∧ b' = ({ b with reconciler := r' }.takeReport report).closeFinal.1 ∨
      ∃ field fields, report.terminal = field :: fields ∧
        b' = ((({ b with reconciler := r' }.takeReport report).freeze report field
          ).expireAll.closeAll).1 := by
  have hnext := pushNext_of_push (sound_of_push hpush) hpush
  rw [pushNext, hactive] at hnext
  obtain ⟨r₁, report₁, hstep₁, hsettle⟩ := pushActive_eq_ok hnext
  cases hstep.symm.trans hstep₁
  rw [settle] at hsettle
  cases hterminal : report.terminal with
  | nil =>
      simp only [hterminal] at hsettle
      exact .inl ⟨rfl, by rw [hsettle]⟩
  | cons field fields =>
      simp only [hterminal] at hsettle
      exact .inr ⟨field, fields, rfl, by rw [hsettle]⟩

theorem replayed_of_push (hfrozen : b.session.isFrozen = true)
    (hpush : b.push f = (b', .ok states)) :
    b'.session = b.session ∧ b'.quality = b.quality.addFrame.addIgnored f ∧
      b'.reconciler.tracks = b.reconciler.tracks := by
  have hnext := pushNext_of_push (sound_of_push hpush) hpush
  cases hsession : b.session with
  | active =>
      rw [hsession] at hfrozen
      cases hfrozen
  | frozen frame field values =>
      rw [pushNext, hsession] at hnext
      simp only [pushFrozen, Reconciler.skip] at hnext
      cases hcheck : b.reconciler.check f with
      | error e =>
          rw [hcheck] at hnext
          cases hnext
      | ok _ =>
          rw [hcheck] at hnext
          cases hnext
          exact ⟨hsession, rfl, rfl⟩

theorem session_of_refused {e : BuildError} (h : b.push f = (b', .error e)) :
    b'.session = b.session := by
  have hsame : b'.healed.session = b.healed.session := by rw [healed_of_refused h]
  exact hsame

theorem quality_of_refused {e : BuildError} (h : b.push f = (b', .error e)) :
    b'.quality = b.quality := by
  have hsame : b'.healed.quality = b.healed.quality := by rw [healed_of_refused h]
  exact hsame

theorem Run.session (h : Run s past rest b) :
    (b.session = .active ∧ rest = [] ∧ ∀ e ∈ past, e.2.terminal = []) ∨
      ∃ e older field fields, past = e :: older ∧ e.2.terminal = field :: fields ∧
        (∀ x ∈ older, x.2.terminal = []) ∧
        b.session = .frozen e.2.frame field e.2.record.fields := by
  induction h with
  | start => exact .inl ⟨rfl, rfl, fun _ hx => nomatch hx⟩
  | @played past rest b b' f r' report states _ hactive hstep hpush ih =>
      have hplayed : rest = [] ∧ ∀ e ∈ past, e.2.terminal = [] := by
        rcases ih with ⟨-, hrest, hpast⟩ | ⟨e, _, _, _, -, -, -, hfrozen⟩
        · exact ⟨hrest, hpast⟩
        · cases hactive.symm.trans hfrozen
      rcases settled_of_push hactive hstep hpush with ⟨hnone, rfl⟩ | ⟨field, fields, hsome, rfl⟩
      · left
        refine ⟨?_, hplayed.1, ?_⟩
        · rw [closeFinal_session, takeReport_session]
          exact hactive
        · intro e he
          rcases List.mem_cons.mp he with rfl | he
          · exact hnone
          · exact hplayed.2 e he
      · exact .inr ⟨_, _, field, fields, rfl, hsome, hplayed.2, rfl⟩
  | @replayed past rest b b' f states _ hfrozen hpush ih =>
      rw [(replayed_of_push hfrozen hpush).1]
      rcases ih with ⟨hactive, -⟩ | hover
      · rw [hactive] at hfrozen
        cases hfrozen
      · exact .inr hover
  | refused _ hpush ih =>
      rw [session_of_refused hpush]
      exact ih

theorem Run.alike (h : Run s past rest b) :
    b.quality.framesIn = past.length + rest.length ∧ b.quality.fields.keys = s.names := by
  induction h with
  | start => exact ⟨rfl, Table.keys_map _ _⟩
  | @played past rest b b' f r' report states _ hactive hstep hpush ih =>
      have htake := takeReport_alike { b with reconciler := r' } report
      have hend : b'.quality.framesIn = b.quality.framesIn + 1 ∧
          b'.quality.fields.keys = b.quality.fields.keys := by
        rcases settled_of_push hactive hstep hpush with ⟨-, rfl⟩ | ⟨field, -, -, rfl⟩
        · rw [closeFinal_quality]
          exact ⟨htake.framesIn, htake.keys⟩
        · have hexpire := expireAll_alike
            (({ b with reconciler := r' }.takeReport report).freeze report field)
          exact ⟨hexpire.framesIn.trans htake.framesIn, hexpire.keys.trans htake.keys⟩
      rw [hend.1, hend.2, ih.1, List.length_cons]
      exact ⟨by omega, ih.2⟩
  | @replayed past rest b b' f states _ hfrozen hpush ih =>
      have halike := addIgnored_alike b.quality.addFrame f
      rw [(replayed_of_push hfrozen hpush).2.1, halike.framesIn, halike.keys, List.length_append,
        List.length_singleton, ← Nat.add_assoc, ← ih.1]
      exact ⟨rfl, ih.2⟩
  | refused _ hpush ih =>
      rw [quality_of_refused hpush]
      exact ih

theorem Run.playing (h : Run s past rest b) (hactive : b.session = .active) :
    Playing s past b.healed := by
  rcases h.phase with ⟨-, hplaying⟩ | hover
  · exact hplaying
  · obtain ⟨frame, field, hfrozen⟩ := hover.ended.session
    cases hactive.symm.trans hfrozen

theorem Follows.countP_open (h : Follows s past b)
    (hstep : b.reconciler.step f = .ok (r', report)) (hst : report.fields.get? n = some st) :
    b.openStates.countP (st.touches ·.frame) = past.countP (st.touches ·.1.frame) := by
  -- a closed record lies before every reading that waits, so no revision touches it
  have hclosed : b.closed.toList.countP (st.touches ·.frame) = 0 := by
    refine List.countP_eq_zero.mpr fun x hx => ?_
    cases hrev : st.revision with
    | none => simp [FieldStep.touches, hrev]
    | some rev =>
        obtain ⟨p, hp, hfirst⟩ := Reconciler.revision_awaited h.run hstep
          (Reconciler.mem_revisions_iff.mpr ⟨st, hst, hrev⟩)
        have hlt := h.final x hx p hp
        simp only [FieldStep.touches, hrev, Option.any_some, Revision.covers, Bool.and_eq_true,
          decide_eq_true_eq, not_and]
        omega
  have hall : b.emitted.countP (st.touches ·.frame) = past.countP (st.touches ·.1.frame) := by
    rw [h.emitted]
    exact h.run.countP_records st.touches
  rw [TimelineBuilder.emitted, List.countP_append, hclosed, Nat.zero_add] at hall
  exact hall

theorem Run.tally_played (h : Run s past rest b) (hactive : b.session = .active)
    (hstep : b.reconciler.step f = .ok (r', report)) (hst : report.fields.get? n = some st)
    (hq : b.quality.fields.get? n = some (Track.tally hist))
    (hshare : List.Forall₂ (Reconciler.Share n) past hist) {o : Observation} :
    ({ b with reconciler := r' }.takeReport report).quality.fields.get? n =
      some (Track.tally ((o, st) :: hist)) := by
  have hopen := (h.playing hactive).countP_open hstep hst
  have hcount : past.countP (st.touches ·.1.frame) = hist.countP (st.touches ·.1.frame) :=
    countP_eq_of_forall₂ hshare fun e h hs => by rw [hs.frame]
  have hopen' : b.openStates.countP (st.touches ·.frame) =
      hist.countP (st.touches ·.1.frame) := hopen.trans hcount
  rw [takeReport_get? hst, hq, Option.map_some, Track.tally, hopen']

theorem Run.tally_active (h : Run s past rest b) (hactive : b.session = .active)
    (hm : s.get? n = some m) (hshare : List.Forall₂ (Reconciler.Share n) past hist) :
    b.quality.fields.get? n = some (Track.tally hist) := by
  induction h generalizing hist with
  | start =>
      cases hshare
      have hget : s.models.get? n = some m := hm
      rw [new, QualityReport.new, Table.get?_map, hget]
      rfl
  | @played past rest b b' f r' report states hrun hactive' hstep hpush ih =>
      cases hshare with
      | @cons _ x _ hist hx hshare =>
          have hq := hrun.tally_played hactive' hstep hx.step (ih hactive' hshare) hshare (o := x.1)
          rcases settled_of_push hactive' hstep hpush with ⟨-, rfl⟩ | ⟨field, -, -, rfl⟩
          · rw [closeFinal_quality]
            exact hq
          · cases hactive
  | replayed _ hfrozen hpush _ =>
      rw [← (replayed_of_push hfrozen hpush).1, hactive] at hfrozen
      cases hfrozen
  | refused _ hpush ih =>
      rw [quality_of_refused hpush]
      exact ih (session_of_refused hpush ▸ hactive) hshare

end TimelineBuilder

end GameTimeline
