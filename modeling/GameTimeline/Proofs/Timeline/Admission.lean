import GameTimeline.Proofs.Timeline.Session

namespace GameTimeline

def RawFrame.Known (s : ModelSet) (f : RawFrame) : Prop := ∀ k ∈ f.readings.keys, k ∈ s.names

structure Admissible (s : ModelSet) (frames : List RawFrame) : Prop where
  ordered : frames.Pairwise (·.frame < ·.frame)
  known : ∀ f ∈ frames, f.Known s

namespace Reconciler

variable {s : ModelSet} {r r' : Reconciler} {f : RawFrame} {report : StepReport}

theorem unknownField?_eq_none_iff (hnames : r.tracks.keys = s.names) :
    r.unknownField? f = none ↔ f.Known s := by
  rw [unknownField?, List.find?_eq_none, RawFrame.Known]
  refine forall₂_congr fun k _ => ?_
  rw [← hnames, Table.mem_keys_iff, ← Option.isSome_iff_exists, Bool.not_eq_true,
    Bool.not_eq_false', Table.contains]

theorem check_eq_ok_iff (hnames : r.tracks.keys = s.names) :
    r.check f = .ok () ↔ (∀ p, r.lastFrame = some p → p < f.frame) ∧ f.Known s := by
  rw [← unknownField?_eq_none_iff hnames, check]
  cases hu : r.unknownField? f <;> cases hl : r.lastFrame
  · simp
  · rename_i p
    by_cases hle : f.frame ≤ p
    · simp [hle]
    · simp [hle, Nat.not_le.mp hle]
  · simp
  · rename_i p
    by_cases hle : f.frame ≤ p <;> simp [hle]

theorem step_of_check (h : r.check f = .ok ()) : ∃ r' report, r.step f = .ok (r', report) := by
  rw [step, h]
  exact ⟨_, _, rfl⟩

end Reconciler

namespace TimelineBuilder

variable {s : ModelSet} {b b' : TimelineBuilder} {f : RawFrame} {frames : List RawFrame}
  {states : List CorrectedState}

theorem settle_reconciler (b : TimelineBuilder) (report : StepReport) :
    (b.settle report).1.reconciler.lastFrame = b.reconciler.lastFrame ∧
      (b.settle report).1.reconciler.tracks.keys = b.reconciler.tracks.keys := by
  rw [settle]
  split
  · rw [closeFinal_reconciler]
    exact ⟨rfl, rfl⟩
  · exact ⟨rfl, Table.keys_map _ _⟩

theorem settle_sound (b : TimelineBuilder) (report : StepReport) :
    (b.settle report).1.poisoned = b.poisoned := by
  rw [settle]
  split
  · rw [closeFinal]
    split <;> rfl
  · rfl

theorem takeReport_poisoned (b : TimelineBuilder) (report : StepReport) :
    (b.takeReport report).poisoned = b.poisoned := by
  obtain ⟨quality, htake⟩ := takeReport_eq b report
  rw [htake]

theorem check_of_push (h : b.push f = (b', .ok states)) : b.reconciler.check f = .ok () := by
  have hnext := pushNext_of_push (sound_of_push h) h
  rw [pushNext] at hnext
  split at hnext
  · obtain ⟨r', report, hstep, -⟩ := pushActive_eq_ok hnext
    exact Reconciler.check_of_step hstep
  · simp only [pushFrozen, Reconciler.skip] at hnext
    cases hcheck : b.reconciler.check f with
    | error e =>
        rw [hcheck] at hnext
        cases hnext
    | ok _ => rfl

structure Ready (s : ModelSet) (b : TimelineBuilder) : Prop where
  sound : b.poisoned = false
  names : b.reconciler.tracks.keys = s.names

theorem Ready.start (s : ModelSet) : Ready s (.new s) := ⟨rfl, Table.keys_map _ _⟩

theorem Ready.push (h : Ready s b) (hcheck : b.reconciler.check f = .ok ()) :
    ∃ b' states, b.push f = (b', .ok states) ∧ Ready s b' ∧
      b'.reconciler.lastFrame = some f.frame := by
  have hnext : ∃ b' states, b.pushNext f = .ok (b', states) ∧ Ready s b' ∧
      b'.reconciler.lastFrame = some f.frame := by
    cases hsession : b.session with
    | active =>
        obtain ⟨r', report, hstep⟩ := Reconciler.step_of_check hcheck
        have hst := Reconciler.stepped_of_step hstep
        have hrec := takeReport_reconciler { b with reconciler := r' } report
        have hpoison := takeReport_poisoned { b with reconciler := r' } report
        have hnext : b.pushNext f =
            .ok (({ b with reconciler := r' }.takeReport report).settle report) := by
          have hactive : b.pushNext f = b.pushActive f := by rw [pushNext, hsession]
          rw [hactive]
          simp only [pushActive, hstep, bind, Except.bind, pure, Except.pure]
        generalize { b with reconciler := r' }.takeReport report = taken at hrec hpoison hnext
        obtain ⟨hlast, hkeys⟩ := settle_reconciler taken report
        rw [hrec] at hlast hkeys
        have hnames : r'.tracks.keys = s.names := by
          rw [hst.tracks, Table.keys_map]
          exact h.names
        exact ⟨_, _, hnext, ⟨(settle_sound taken report).trans (hpoison.trans h.sound),
          hkeys.trans hnames⟩, hlast.trans hst.lastFrame⟩
    | frozen frame field values =>
        have hnext : b.pushNext f = .ok (({ b with
            reconciler := b.reconciler.advance f
            quality := b.quality.addFrame.addIgnored f }.openRecord (replay f values)).closeAll) := by
          have hfrozen : b.pushNext f = b.pushFrozen f values := by rw [pushNext, hsession]
          rw [hfrozen]
          simp only [pushFrozen, Reconciler.skip, hcheck, bind, Except.bind, pure, Except.pure]
        exact ⟨_, _, hnext, ⟨h.sound, h.names⟩, rfl⟩
  obtain ⟨b', states, hok, hready, hlast⟩ := hnext
  refine ⟨b', states, ?_, hready, hlast⟩
  rw [TimelineBuilder.push, h.sound, hok]
  rfl

theorem Ready.pushAll_ok_iff (h : Ready s b) (frames : List RawFrame) :
    (∃ b', b.pushAll frames = .ok b' ∧ b'.poisoned = false) ↔
      (∀ p, b.reconciler.lastFrame = some p → ∀ f ∈ frames, p < f.frame) ∧
        Admissible s frames := by
  induction frames generalizing b with
  | nil =>
      exact iff_of_true ⟨b, rfl, h.sound⟩
        ⟨fun _ _ _ hf => (nomatch hf), .nil, fun _ hf => (nomatch hf)⟩
  | cons f frames ih =>
      have hcheck_iff := Reconciler.check_eq_ok_iff (f := f) h.names
      rw [TimelineBuilder.pushAll]
      constructor
      · rintro ⟨b'', hall, hsound⟩
        split at hall
        · rename_i b' states hpush
          have hcheck := check_of_push hpush
          obtain ⟨b₁, states₁, hpush₁, hready, hlast⟩ := h.push hcheck
          cases hpush.symm.trans hpush₁
          obtain ⟨hlater, hadm⟩ := (ih hready).mp ⟨b'', hall, hsound⟩
          obtain ⟨hfirst, hknown⟩ := hcheck_iff.mp hcheck
          refine ⟨?_, List.pairwise_cons.mpr ⟨hlater _ hlast, hadm.ordered⟩,
            List.forall_mem_cons.mpr ⟨hknown, hadm.known⟩⟩
          intro p hp g hg
          rcases List.mem_cons.mp hg with rfl | hg
          · exact hfirst p hp
          · exact (hfirst p hp).trans (hlater _ hlast g hg)
        · cases hall
      · rintro ⟨hlater, hord, hknown⟩
        obtain ⟨hf, hord⟩ := List.pairwise_cons.mp hord
        have hcheck := hcheck_iff.mpr ⟨fun p hp => hlater p hp f (List.mem_cons_self ..),
          hknown f (List.mem_cons_self ..)⟩
        obtain ⟨b', states, hpush, hready, hlast⟩ := h.push hcheck
        rw [hpush]
        refine (ih hready).mpr ⟨?_, hord, fun g hg => hknown g (List.mem_cons_of_mem _ hg)⟩
        intro p hp
        cases hlast.symm.trans hp
        exact hf

theorem finish_eq_ok_iff : (∃ t quality, b.finish = .ok (t, quality)) ↔ b.poisoned = false := by
  rw [finish]
  cases b.poisoned <;> simp

end TimelineBuilder

theorem assemble_ok_iff_admissible {s : ModelSet} {frames : List RawFrame} :
    (∃ t quality, assemble s frames = .ok (t, quality)) ↔ Admissible s frames := by
  have hall := (TimelineBuilder.Ready.start s).pushAll_ok_iff frames
  have hnone : (TimelineBuilder.new s).reconciler.lastFrame = none := rfl
  simp only [hnone, reduceCtorEq, false_implies, implies_true, true_and] at hall
  rw [← hall, assemble]
  cases hpush : (TimelineBuilder.new s).pushAll frames with
  | error e => simp [bind, Except.bind]
  | ok b =>
      have hfinish := TimelineBuilder.finish_eq_ok_iff (b := b)
      simpa [bind, Except.bind] using hfinish

end GameTimeline
