import GameTimeline.Proofs.Reconcile.Omission
import GameTimeline.Proofs.Timeline.Complete
import GameTimeline.Proofs.Timeline.Separation

namespace GameTimeline

namespace RawFrame

def without (drop : String → Nat → Bool) (f : RawFrame) : RawFrame :=
  { f with readings := f.readings.map fun n r => if drop n f.frame then none else r }

variable {s : ModelSet} {drop : String → Nat → Bool} {f : RawFrame} {n : String}

theorem reading_without (drop : String → Nat → Bool) (f : RawFrame) (n : String) :
    (f.without drop).reading n = if drop n f.frame then none else f.reading n := by
  rw [reading, without, Table.get?_map, reading]
  cases f.readings.get? n <;> split <;> rfl

theorem known_without (h : f.Known s) : (f.without drop).Known s := by
  rw [Known, without, Table.keys_map]
  exact h

end RawFrame

theorem Admissible.without {s : ModelSet} {frames : List RawFrame} (h : Admissible s frames)
    (drop : String → Nat → Bool) : Admissible s (frames.map (·.without drop)) where
  ordered := List.pairwise_map.mpr h.ordered
  known := by
    intro f hf
    obtain ⟨g, hg, rfl⟩ := List.mem_map.mp hf
    exact RawFrame.known_without (h.known g hg)

theorem Track.clear_discards (t : Track) :
    t.clear.2 = t.current.pending.map (.ofPending .suspectExpired) := by
  obtain ⟨_, b?⟩ := t
  cases b? <;> rfl

theorem Track.Run.observations_without {m : FieldModel} {past past' : List (Observation × FieldStep)}
    {t t' : Track} {drop : Nat → Bool} (h : Run m past t) (h' : Run m past' t')
    (hinput : past'.map input = past.map fun e => input (e.1.without drop, e.2)) :
    past'.map (·.1) = past.map (·.1.without drop) := by
  induction past generalizing past' t t' with
  | nil =>
      obtain rfl := List.map_eq_nil_iff.mp hinput
      rfl
  | cons e past ih =>
      cases past' with
      | nil => cases hinput
      | cons e' past' =>
          obtain ⟨hone, hrest⟩ := List.cons.inj hinput
          obtain ⟨t₀, hrun, hseq, hprev, -⟩ := h.of_cons
          obtain ⟨t₀', hrun', hseq', hprev', -⟩ := h'.of_cons
          have hold := ih hrun hrun' hrest
          have hlength : past'.length = past.length := by
            simpa using congrArg List.length hold
          have hhead : past'.head?.map (·.1.frame) = past.head?.map (·.1.frame) := by
            have hheads := congrArg (fun l => l.head?.map (·.frame)) hold
            simpa [Observation.without, Function.comp_def] using hheads
          simp only [input, Prod.mk.injEq] at hone
          obtain ⟨hframe, hreading, hconfidence⟩ := hone
          have hobs : e'.1 = e.1.without drop := by
            refine observation_ext hframe ?_ ?_ hreading hconfidence
            · exact hseq'.trans (by rw [hlength]; exact hseq.symm)
            · exact hprev'.trans (hhead.trans hprev.symm)
          rw [List.map_cons, List.map_cons, hold, hobs]

namespace Reconciler

def discards (r : Reconciler) : List RawFrame → List (String × Discard)
  | [] => r.expireAll.2
  | f :: rest =>
      match r.step f with
      | .error _ => []
      | .ok (r', report) =>
          report.discarded ++
            if report.terminal = [] then r'.discards rest else r'.expireAll.2

variable {s : ModelSet} {past past' later later' : List (RawFrame × StepReport)}
  {r r' : Reconciler} {f : RawFrame} {report : StepReport} {n : String} {m : FieldModel}
  {d : Discard} {e e' : RawFrame × StepReport} {drop : String → Nat → Bool} {keep : Nat → Bool}
  {hist hist' : List (Observation × FieldStep)}

theorem discards_of_step (h : r.step f = .ok (r', report)) (rest : List RawFrame) :
    r.discards (f :: rest) = report.discarded ++
      if report.terminal = [] then r'.discards rest else r'.expireAll.2 := by
  rw [discards, h]

theorem Run.discards_append (h : Run s past r) (hgoes : ∀ e ∈ past, e.2.terminal = [])
    (frames : List RawFrame) :
    (new s).discards ((past.map (·.1)).reverse ++ frames) =
      (past.map (·.2)).reverse.flatMap (·.discarded) ++ r.discards frames := by
  induction past generalizing r frames with
  | nil =>
      rw [h.of_nil]
      rfl
  | cons e past ih =>
      obtain ⟨r₀, hrun, hstep⟩ := h.of_cons
      have hold := ih hrun (fun x hx => hgoes x (List.mem_cons_of_mem _ hx)) (e.1 :: frames)
      rw [discards_of_step hstep, if_pos (hgoes e (List.mem_cons_self ..))] at hold
      simpa using hold

theorem mem_discarded_iff :
    (n, d) ∈ report.discarded ↔ ∃ st, report.fields.get? n = some st ∧ d ∈ st.discarded := by
  simp [StepReport.discarded, Table.get?_eq_some_iff]

theorem mem_expireAll_iff : (n, d) ∈ r.expireAll.2 ↔
    ∃ t, r.tracks.get? n = some t ∧ d ∈ t.current.pending.map (.ofPending .suspectExpired) := by
  simp only [expireAll, Track.clear_discards, List.mem_flatMap, List.mem_map (b := (n, d)),
    Prod.mk.injEq, Table.get?_eq_some_iff]
  constructor
  · rintro ⟨⟨k, t⟩, ht, d', hd, rfl, rfl⟩
    exact ⟨t, ht, hd⟩
  · rintro ⟨t, ht, hd⟩
    exact ⟨(n, t), ht, d, hd, rfl, rfl⟩

theorem mem_discards_of_share (hshare : List.Forall₂ (Share n) past hist) :
    (∃ e ∈ past, (n, d) ∈ e.2.discarded) ↔ d ∈ hist.flatMap (·.2.discarded) := by
  rw [List.mem_flatMap]
  constructor
  · rintro ⟨e, he, hd⟩
    obtain ⟨st, hst, hd⟩ := mem_discarded_iff.mp hd
    obtain ⟨x, hx, rfl⟩ := exists_of_share hshare he hst
    exact ⟨x, hx, hd⟩
  · rintro ⟨x, hx, hd⟩
    obtain ⟨e, he, hs⟩ := exists_of_forall₂ hshare hx
    exact ⟨e, he, mem_discarded_iff.mpr ⟨_, hs.step, hd⟩⟩

theorem input_without_of_share (hshare : List.Forall₂ (Share n) past hist) :
    (hist.map fun x => Track.input (x.1.without (drop n), x.2)) =
      past.map fun e => (e.1.without drop).input n := by
  induction hshare with
  | nil => rfl
  | cons hs _ ih =>
      rw [List.map_cons, List.map_cons, ih, Track.input, RawFrame.input, RawFrame.reading_without]
      simp only [Observation.without, hs.frame, hs.reading, hs.confidence]
      rfl

def Spares (s : ModelSet) (drop : String → Nat → Bool) (past : List (RawFrame × StepReport)) :
    Prop :=
  ∀ n m, s.get? n = some m → ∃ t hist, Track.Run m hist t ∧ List.Forall₂ (Share n) past hist ∧
    ∀ g ∈ Track.provenIn m hist, drop n g = false

theorem Spares.suffix (h : Spares s drop (later ++ past)) : Spares s drop past := by
  intro n m hm
  obtain ⟨t, hist, hrun, hshare, hspared⟩ := h n m hm
  have hsplit := List.take_append_drop later.length hist
  rw [← hsplit] at hrun hspared
  obtain ⟨t₀, hold⟩ := hrun.older
  have hdrop := List.forall₂_drop later.length hshare
  rw [List.drop_left] at hdrop
  exact ⟨t₀, _, hold, hdrop, fun g hg => hspared g (Track.provenIn_subset _ _ g hg)⟩

structure Omitted (s : ModelSet) (drop : String → Nat → Bool)
    (past past' : List (RawFrame × StepReport)) : Prop where
  spares : Spares s drop past
  run : ∃ r, Run s past r
  run' : ∃ r, Run s past' r
  frames : past'.map (·.1) = past.map (·.1.without drop)

structure Omitted.Field (drop : Nat → Bool) (n : String) (m : FieldModel)
    (past past' : List (RawFrame × StepReport)) (hist hist' : List (Observation × FieldStep)) :
    Prop where
  run : ∃ t, Track.Run m hist t
  run' : ∃ t, Track.Run m hist' t
  share : List.Forall₂ (Share n) past hist
  share' : List.Forall₂ (Share n) past' hist'
  observations : hist'.map (·.1) = hist.map (·.1.without drop)
  spared : ∀ g ∈ Track.provenIn m hist, drop g = false

namespace Omitted

theorem field (h : Omitted s drop past past') (hm : s.get? n = some m) :
    ∃ hist hist', Field (drop n) n m past past' hist hist' := by
  obtain ⟨t, hist, hrun, hshare, hspared⟩ := h.spares n m hm
  obtain ⟨r', hr'⟩ := h.run'
  obtain ⟨t', hist', -, hrun', hshare'⟩ := hr'.field hm
  refine ⟨hist, hist', ⟨t, hrun⟩, ⟨t', hrun'⟩, hshare, hshare', ?_, hspared⟩
  refine hrun.observations_without hrun' ?_
  rw [input_without_of_share hshare, input_eq_of_share hshare']
  have hinputs := congrArg (List.map (RawFrame.input n)) h.frames
  rwa [List.map_map, List.map_map] at hinputs

theorem Field.head (h : Field keep n m (e :: past) (e' :: past') hist hist')
    (hm : m.validate = .ok ()) : ∃ x x' older older', hist = x :: older ∧ hist' = x' :: older' ∧
      Share n e x ∧ Share n e' x' ∧ Track.Alike keep x.1 (Track.waiting m older) x'.2 x.2 := by
  obtain ⟨t, hrun⟩ := h.run
  obtain ⟨t', hrun'⟩ := h.run'
  have hshare := h.share
  have hshare' := h.share'
  have hobs := h.observations
  have hspared := h.spared
  cases hshare with
  | @cons _ x _ older hs _ =>
      cases hshare' with
      | @cons _ x' _ older' hs' _ =>
          exact ⟨x, x', older, older', rfl, rfl, hs, hs', hrun.alike hm hrun' hobs hspared⟩

theorem terminal_iff (h : Omitted s drop (e :: past) (e' :: past')) :
    e'.2.terminal ≠ [] ↔ e.2.terminal ≠ [] := by
  obtain ⟨r, hrun⟩ := h.run
  obtain ⟨r', hrun'⟩ := h.run'
  have hends : ∀ n m, s.get? n = some m → (n ∈ e'.2.terminal ↔ n ∈ e.2.terminal) := by
    intro n m hm
    obtain ⟨hist, hist', hfield⟩ := h.field hm
    obtain ⟨x, x', older, -, -, -, hs, hs', halike⟩ := hfield.head (ModelSet.validate_of_get? hm)
    rw [StepReport.mem_terminal_iff, StepReport.mem_terminal_iff, hs.step, hs'.step]
    simp [halike.terminal]
  have hnamed {past : List (RawFrame × StepReport)} {r : Reconciler} {e : RawFrame × StepReport}
      (hrun : Run s (e :: past) r) {n : String} (hn : n ∈ e.2.terminal) :
      ∃ m, s.get? n = some m := by
    obtain ⟨st, hst, -⟩ := StepReport.mem_terminal_iff.mp hn
    exact hrun.field_of_mem (List.mem_cons_self ..) hst
  constructor
  · intro hne
    obtain ⟨n, hn⟩ := List.exists_mem_of_ne_nil _ hne
    obtain ⟨m, hm⟩ := hnamed hrun' hn
    exact List.ne_nil_of_mem ((hends n m hm).mp hn)
  · intro hne
    obtain ⟨n, hn⟩ := List.exists_mem_of_ne_nil _ hne
    obtain ⟨m, hm⟩ := hnamed hrun hn
    exact List.ne_nil_of_mem ((hends n m hm).mpr hn)

end Omitted

end Reconciler

namespace TimelineBuilder.Assembled

variable {s : ModelSet} {frames rest rest' : List RawFrame}
  {past past' : List (RawFrame × StepReport)} {r r' : Reconciler} {t t' : Timeline}
  {quality quality' : QualityReport} {n : String} {m : FieldModel} {d : Discard}
  {drop : String → Nat → Bool} {hist : List (Observation × FieldStep)} {track : Track}

theorem discards (h : Assembled s frames past r rest t quality) :
    (Reconciler.new s).discards frames =
      (past.map (·.2)).reverse.flatMap (·.discarded) ++ r.expireAll.2 := by
  have hstream := h.stream
  cases past with
  | nil =>
      obtain rfl : rest = [] := by
        by_contra hrest
        obtain ⟨e, he, -⟩ := h.ends hrest
        cases he
      obtain rfl : frames = [] := hstream.symm
      rw [h.run.of_nil]
      rfl
  | cons e past =>
      obtain ⟨r₀, hrun, hstep⟩ := h.run.of_cons
      have hall := hrun.discards_append h.goesOn (e.1 :: rest)
      rw [Reconciler.discards_of_step hstep] at hall
      have hframes : (past.map (·.1)).reverse ++ e.1 :: rest = frames := by
        rw [← hstream]
        simp
      have hrest : (if e.2.terminal = [] then r.discards rest else r.expireAll.2) =
          r.expireAll.2 := by
        split
        · rename_i hnone
          obtain rfl : rest = [] := by
            by_contra hrest
            obtain ⟨x, hx, hterminal⟩ := h.ends hrest
            cases hx
            exact hterminal hnone
          rfl
        · rfl
      rw [← hframes, hall, hrest]
      simp

theorem mem_discards_iff (h : Assembled s frames past r rest t quality)
    (hshare : List.Forall₂ (Reconciler.Share n) past hist)
    (htrack : r.tracks.get? n = some track) :
    (n, d) ∈ (Reconciler.new s).discards frames ↔ d ∈ Track.lost hist track := by
  have hsteps : (n, d) ∈ (past.map (·.2)).reverse.flatMap (·.discarded) ↔
      ∃ e ∈ past, (n, d) ∈ e.2.discarded := by
    simp only [List.mem_flatMap, List.mem_reverse, List.mem_map, exists_exists_and_eq_and]
  rw [h.discards, Track.lost, List.mem_append, List.mem_append, hsteps,
    Reconciler.mem_discards_of_share hshare, Reconciler.mem_expireAll_iff, htrack]
  simp

theorem omitted (h : Assembled s frames past r rest t quality)
    (h' : Assembled s (frames.map (·.without drop)) past' r' rest' t' quality')
    (hspares : Reconciler.Spares s drop past) :
    Reconciler.Omitted s drop past past' ∧ rest' = rest.map (·.without drop) := by
  have hstream : (past'.map (·.1)).reverse ++ rest' =
      (past.map (·.1.without drop)).reverse ++ rest.map (·.without drop) := by
    rw [h'.stream, ← h.stream]
    simp [Function.comp_def]
  have haligned : ∀ later e older later' e' older', past = later ++ e :: older →
      past' = later' ++ e' :: older' → older.length = older'.length →
      (e'.2.terminal ≠ [] ↔ e.2.terminal ≠ []) := by
    rintro later e older later' e' older' rfl rfl hlength
    have hheads := history_unique hstream ((List.suffix_append later' (e' :: older')).map (·.1))
      ((List.suffix_append later (e :: older)).map (·.1.without drop)) (by simp [hlength])
    exact Reconciler.Omitted.terminal_iff
      ⟨hspares.suffix, h.run.older, h'.run.older, hheads⟩
  have hlength := h.length_eq
  have hlength' := h'.length_eq
  rw [List.length_map] at hlength'
  -- neither run can end before the other
  have hle : past.length ≤ past'.length := h.length_le h' (by simp; omega)
    fun later e older later' e' older' hp hp' hlength =>
      (haligned later e older later' e' older' hp hp' hlength).mp
  have hge : past'.length ≤ past.length := h'.length_le h (by omega)
    fun later' e' older' later e older hp' hp hlength =>
      (haligned later e older later' e' older' hp hp' hlength.symm).mpr
  obtain ⟨hplayed, hrest⟩ := List.append_inj hstream (by simp; omega)
  exact ⟨⟨hspares, ⟨r, h.run⟩, ⟨r', h'.run⟩, List.reverse_injective hplayed⟩, hrest⟩

theorem frozenAt_omitted (h : Assembled s frames past r rest t quality)
    (h' : Assembled s (frames.map (·.without drop)) past' r' rest' t' quality')
    (homitted : Reconciler.Omitted s drop past past') :
    quality'.frozenAt = quality.frozenAt := by
  rw [h.frozenAt, h'.frozenAt]
  cases past with
  | nil =>
      obtain rfl := List.map_eq_nil_iff.mp homitted.frames
      rfl
  | cons e past =>
      cases past' with
      | nil => cases homitted.frames
      | cons e' past' =>
          have hterminal := homitted.terminal_iff
          have hone : e'.1 = e.1.without drop := (List.cons.inj homitted.frames).1
          have hframe : e'.1.frame = e.1.frame := (congrArg RawFrame.frame hone).trans rfl
          simp only [List.head?_cons, Option.filter_some, hterminal]
          split
          · exact congrArg some hframe
          · rfl

end TimelineBuilder.Assembled

end GameTimeline
