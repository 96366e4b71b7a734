import GameTimeline.Proofs.Reconcile.Standing
import GameTimeline.Proofs.Reconcile.Stream

namespace GameTimeline

inductive Operation where
  | step (f : RawFrame)
  | skip (f : RawFrame)
  | expireAll

namespace Reconciler

def perform (r : Reconciler) : Operation → Reconciler
  | .step f =>
      match r.step f with
      | .ok (r', _) => r'
      | .error _ => r
  | .skip f =>
      match r.skip f with
      | .ok r' => r'
      | .error _ => r
  | .expireAll => r.expireAll.1

def performAll (r : Reconciler) (ops : List Operation) : Reconciler := ops.foldl perform r

theorem performAll_induction {P : Reconciler → Prop} {r : Reconciler} (h : P r)
    (hstep : ∀ r f r' report, P r → r.step f = .ok (r', report) → P r')
    (hskip : ∀ r f r', P r → r.skip f = .ok r' → P r')
    (hexpire : ∀ r, P r → P r.expireAll.1) (ops : List Operation) : P (r.performAll ops) := by
  induction ops generalizing r with
  | nil => exact h
  | cons op ops ih =>
      refine ih (r := r.perform op) ?_
      cases op with
      | step f =>
          rw [perform]
          split
          · exact hstep _ _ _ _ h ‹_›
          · exact h
      | skip f =>
          rw [perform]
          split
          · exact hskip _ _ _ h ‹_›
          · exact h
      | expireAll => exact hexpire r h

def waiting (r : Reconciler) : List Pending := r.tracks.values.flatMap (·.current.pending)

structure Sound (s : ModelSet) (r : Reconciler) : Prop where
  names : r.tracks.keys = s.names
  track : ∀ n m t, s.get? n = some m → r.tracks.get? n = some t →
    t.model = m ∧ t.current.Standing m r.lastFrame r.seq

namespace Sound

variable {s : ModelSet} {r r' : Reconciler} {f : RawFrame} {report : StepReport} {n : String}
  {m : FieldModel} {t : Track} {b : Belief}

theorem start (s : ModelSet) : Sound s (.new s) where
  names := Table.keys_map _ _
  track n m t hm ht := by
    have hm' : s.models.get? n = some m := hm
    rw [Reconciler.new, Table.get?_map, hm'] at ht
    cases ht
    exact ⟨rfl, .empty (ModelSet.validate_of_get? hm)⟩

theorem step_track (h : Sound s r) (hstep : r.step f = .ok (r', report)) (hm : s.get? n = some m)
    (ht : r'.tracks.get? n = some t) :
    t.model = m ∧ t.current.Standing m r'.lastFrame r'.seq ∧
      ∀ p ∈ t.current.pending, r'.seq - p.seq < m.window := by
  have hst := stepped_of_step hstep
  rw [hst.tracks, Table.get?_map] at ht
  obtain ⟨t₀, ht₀, rfl⟩ := Option.map_eq_some_iff.mp ht
  obtain ⟨hmodel, hstanding⟩ := h.track n m t₀ hm ht₀
  have hnext := Track.standing_step (o := r.observation f n) hstanding
    (ModelSet.validate_of_get? hm) hmodel hst.later (Nat.lt_succ_self _)
  rw [hst.lastFrame, hst.seq]
  exact ⟨hmodel, hnext⟩

theorem step (h : Sound s r) (hstep : r.step f = .ok (r', report)) : Sound s r' where
  names := by rw [(stepped_of_step hstep).tracks, Table.keys_map, h.names]
  track n m t hm ht := by
    obtain ⟨hmodel, hstanding, -⟩ := h.step_track hstep hm ht
    exact ⟨hmodel, hstanding⟩

theorem skip (h : Sound s r) (hskip : r.skip f = .ok r') : Sound s r' := by
  rw [Reconciler.skip] at hskip
  cases hcheck : r.check f with
  | error e =>
      rw [hcheck] at hskip
      cases hskip
  | ok _ =>
      rw [hcheck] at hskip
      cases hskip
      refine ⟨h.names, fun n m t hm ht => ?_⟩
      obtain ⟨hmodel, hstanding⟩ := h.track n m t hm ht
      exact ⟨hmodel, hstanding.pass (fun l hl => lt_of_check hcheck hl) (Nat.le_succ _)⟩

theorem expireAll (h : Sound s r) : Sound s r.expireAll.1 where
  names := (Table.keys_map _ _).trans h.names
  track n m t hm ht := by
    rw [Reconciler.expireAll, Table.get?_map] at ht
    obtain ⟨t₀, ht₀, rfl⟩ := Option.map_eq_some_iff.mp ht
    obtain ⟨hmodel, hstanding⟩ := h.track n m t₀ hm ht₀
    refine ⟨hmodel, ?_⟩
    rw [Track.clear_current]
    exact hstanding.clear

theorem performAll (h : Sound s r) (ops : List Operation) : Sound s (r.performAll ops) :=
  performAll_induction h (fun _ _ _ _ h => h.step) (fun _ _ _ h => h.skip) (fun _ h => h.expireAll)
    ops

theorem model (h : Sound s r) (ht : r.tracks.get? n = some t) : ∃ m, s.get? n = some m := by
  have hmem : n ∈ r.tracks.keys := Table.mem_keys_iff.mpr ⟨t, ht⟩
  rw [h.names] at hmem
  exact Table.mem_keys_iff.mp hmem

theorem horizon_eq (h : Sound s r) : r.horizon = (r.waiting.map (·.frame)).min? := by
  have hfirst : ∀ t ∈ r.tracks.values,
      t.firstPending = (t.current.pending.map (·.frame)).min? := by
    intro t ht
    obtain ⟨n, hn⟩ := Table.mem_values_iff.mp ht
    obtain ⟨m, hm⟩ := h.model hn
    rw [← (h.track n m t hm hn).2.toSound.firstPending_eq, Belief.firstPending]
    exact Track.firstPending_eq t
  rw [horizon, List.filterMap_congr hfirst, min?_filterMap, waiting, List.map_flatMap]

end Sound

theorem current_of_belief? {r : Reconciler} {n : String} {b : Belief} (h : r.belief? n = some b) :
    ∃ t, r.tracks.get? n = some t ∧ t.current = b := by
  obtain ⟨t, ht, hb⟩ := Option.bind_eq_some_iff.mp h
  exact ⟨t, ht, by rw [Track.current, hb]; rfl⟩

theorem buffers_sound {s : ModelSet} {ops : List Operation} {r : Reconciler}
    (hr : (new s).performAll ops = r) :
    (∀ n m b, s.get? n = some m → r.belief? n = some b →
      b.Sound m r.lastFrame ∧ b.firstPending = (b.pending.map (·.frame)).min?) ∧
    (∀ f r' report n m b, r.step f = .ok (r', report) → s.get? n = some m →
      r'.belief? n = some b → ∀ p ∈ b.pending, p.seq ≤ r'.seq ∧ r'.seq - p.seq < m.window) ∧
    r.horizon = (r.waiting.map (·.frame)).min? := by
  have hsound : Sound s r := hr ▸ (Sound.start s).performAll ops
  refine ⟨?_, ?_, hsound.horizon_eq⟩
  · intro n m b hm hb
    obtain ⟨t, ht, rfl⟩ := current_of_belief? hb
    obtain ⟨-, hstanding⟩ := hsound.track n m t hm ht
    exact ⟨hstanding.toSound, hstanding.toSound.firstPending_eq⟩
  · intro f r' report n m b hstep hm hb p hp
    obtain ⟨t, ht, rfl⟩ := current_of_belief? hb
    obtain ⟨-, hstanding, hfresh⟩ := hsound.step_track hstep hm ht
    exact ⟨hstanding.counted p hp, hfresh p hp⟩

theorem buffers_sound_gold : ∃ r b r' report b',
    (new (.single (.boundedDelta "gold" 1) rfl)).performAll
        [.step (.showing 0 "gold" 5), .step (.showing 1 "gold" 9), .step (.showing 1 "gold" 9),
          .skip (.showing 2 "gold" 9)] = r ∧
      r.belief? "gold" = some b ∧ b.pending = [⟨1, 2, .int 9⟩] ∧
      b.Sound (.boundedDelta "gold" 1) r.lastFrame ∧ r.horizon = some 1 ∧
      r.step (.showing 3 "gold" 20) = .ok (r', report) ∧ r'.belief? "gold" = some b' ∧
      b'.pending = [⟨1, 2, .int 9⟩, ⟨3, 4, .int 20⟩] ∧
      ∀ p ∈ b'.pending, p.seq ≤ r'.seq ∧ r'.seq - p.seq < 3 := by
  have hrun : ∃ r b r' report b',
      (new (.single (.boundedDelta "gold" 1) rfl)).performAll
          [.step (.showing 0 "gold" 5), .step (.showing 1 "gold" 9), .step (.showing 1 "gold" 9),
            .skip (.showing 2 "gold" 9)] = r ∧
        r.belief? "gold" = some b ∧ b.pending = [⟨1, 2, .int 9⟩] ∧
        r.waiting.map (·.frame) = [1] ∧
        r.step (.showing 3 "gold" 20) = .ok (r', report) ∧ r'.belief? "gold" = some b' ∧
        b'.pending = [⟨1, 2, .int 9⟩, ⟨3, 4, .int 20⟩] :=
    ⟨_, _, _, _, _, rfl, rfl, rfl, rfl, rfl, rfl, rfl⟩
  obtain ⟨r, b, r', report, b', hr, hb, hpending, hwaiting, hstep, hb', hpending'⟩ := hrun
  obtain ⟨hsound, hfresh, hhorizon⟩ := buffers_sound hr
  rw [hwaiting] at hhorizon
  exact ⟨r, b, r', report, b', hr, hb, hpending, (hsound _ _ b rfl hb).1, hhorizon, hstep, hb',
    hpending', hfresh _ _ _ _ _ _ hstep rfl hb'⟩

end Reconciler

end GameTimeline
