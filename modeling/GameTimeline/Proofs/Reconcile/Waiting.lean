import GameTimeline.Proofs.Reconcile.Meeting

namespace GameTimeline

namespace Belief

variable {m : FieldModel} {b : Belief} {seq later frame : Nat} {c v : FieldValue}

structure Waiting (m : FieldModel) (seq : Nat) (b : Belief) : Prop where
  seqs : b.pending.Pairwise (·.seq < ·.seq)
  counted : ∀ p ∈ b.pending, p.seq ≤ seq
  few : ∀ v, votes b.pending v < m.majority

namespace Waiting

theorem of_sublist (h : b.Waiting m seq) {b' : Belief} (hsub : b'.pending.Sublist b.pending) :
    b'.Waiting m seq where
  seqs := h.seqs.sublist hsub
  counted p hp := h.counted p (hsub.subset hp)
  few v := Nat.lt_of_le_of_lt (votes_le_of_sublist hsub v) (h.few v)

theorem expire (h : b.Waiting m seq) (later : Nat) : (b.expire m.window later).Waiting m seq :=
  h.of_sublist (List.dropWhile_sublist _)

theorem fresh (h : b.Waiting m seq) {p : Pending}
    (hp : p ∈ (b.expire m.window later).pending) : later - p.seq < m.window := by
  rw [expire_pending h.seqs] at hp
  have hfresh := (List.mem_filter.mp hp).2
  simpa [isStale] using hfresh

theorem room (h : b.Waiting m seq) (hm : m.validate = .ok ()) (hlater : seq < later) :
    (b.expire m.window later).pending.length < m.window := by
  have hpos := FieldModel.window_pos hm
  have hord : ((b.expire m.window later).pending.map (·.seq)).Pairwise (· < ·) :=
    List.pairwise_map.mpr (h.expire later).seqs
  have hrange : ∀ x ∈ (b.expire m.window later).pending.map (·.seq),
      later + 1 - m.window ≤ x ∧ x < later + 1 - m.window + (m.window - 1) := by
    intro x hx
    obtain ⟨p, hp, rfl⟩ := List.mem_map.mp hx
    have hold := (h.expire later).counted p hp
    have hfresh := h.fresh hp
    omega
  have hle := length_le_of_increasing hord _ _ hrange
  rw [← List.length_map (f := (·.seq))]
  omega

theorem evicts_nothing (h : b.Waiting m seq) (hm : m.validate = .ok ()) (hlater : seq < later) :
    (b.expire m.window later).evicted m.window = [] :=
  evicted_eq_nil (h.room hm hlater)

theorem votes_push (h : b.Waiting m seq) (hm : m.validate = .ok ()) (hlater : seq < later)
    (p : Pending) (v : FieldValue) :
    votes ((b.expire m.window later).push m.window p).pending v =
      votes (b.expire m.window later).pending v + votes [p] v := by
  rw [push_pending (h.room hm hlater), votes_append]

theorem majority_push (h : b.Waiting m seq) (hm : m.validate = .ok ()) (hlater : seq < later)
    {p : Pending} (hv : ((b.expire m.window later).push m.window p).majority m.majority = some v) :
    v = p.value ∧
      votes ((b.expire m.window later).push m.window p).pending v = m.majority := by
  obtain ⟨hmany, -⟩ := majority_some hv
  have hvotes := h.votes_push hm hlater p v
  have hfew := (h.expire later).few v
  -- without the vote of `p` no value has a majority, so `p` itself is for `v`
  by_cases hne : p.value = v
  · subst hne
    rw [votes_singleton_self] at hvotes
    exact ⟨rfl, by omega⟩
  · rw [votes_singleton_of_ne hne] at hvotes
    omega

end Waiting

end Belief

namespace Track

variable {m : FieldModel} {t : Track} {o : Observation} {b : Belief} {seq : Nat} {c : FieldValue}

theorem confirmed?_eq (h : b.Waiting m seq) (hm : m.validate = .ok ()) {later : Nat}
    (hlater : seq < later)
    (hc : m.classify b.value c (b.elapsed o.frame) ≠ .reject) (frame seq' : Nat) :
    confirmed? m o ((b.expire m.window later).push m.window ⟨frame, seq', c⟩) =
      ((b.expire m.window later).push m.window ⟨frame, seq', c⟩).majority m.majority := by
  rw [confirmed?]
  cases hv : Belief.majority _ m.majority with
  | none => rfl
  | some v =>
      obtain ⟨rfl, -⟩ := h.majority_push hm hlater hv
      exact Option.filter_eq_some_iff.mpr ⟨rfl, decide_eq_true hc⟩

inductive Moves (m : FieldModel) (o : Observation) (b : Belief) : Belief → FieldStep → Prop
  | keeps {st : FieldStep} : st.outcome.isAccepted = false → st.outcome ≠ .suspect →
      (∀ c, m.shown o.reading o.confidence = some c → st.outcome = .rejected) →
      st.value = b.value → st.revision = none → Moves m o b b st
  | buffers {st : FieldStep} {c : FieldValue} : m.shown o.reading o.confidence = some c →
      m.classify b.value c (b.elapsed o.frame) = .suspect →
      (b.push m.window ⟨o.frame, o.seq, c⟩).majority m.majority = none →
      st.outcome = .suspect → st.value = b.value → st.revision = none →
      Moves m o b (b.push m.window ⟨o.frame, o.seq, c⟩) st
  | accepts {st : FieldStep} {c : FieldValue} : m.shown o.reading o.confidence = some c →
      m.classify b.value c (b.elapsed o.frame) = .accept →
      st.outcome = .accepted → st.value = some c →
      st.revision = Revision.upTo? o.previousFrame (agreeing b.pending c) c →
      Moves m o b (.accept c o.frame) st
  | confirms {st : FieldStep} {c : FieldValue} : m.shown o.reading o.confidence = some c →
      m.classify b.value c (b.elapsed o.frame) = .suspect →
      m.majority ≤ Belief.votes (b.push m.window ⟨o.frame, o.seq, c⟩).pending c →
      st.outcome = .confirmed → st.value = some c →
      st.revision = Revision.upTo? o.previousFrame (b.push m.window ⟨o.frame, o.seq, c⟩).pending c →
      Moves m o b (.accept c o.frame) st

theorem moves (h : t.current.Waiting m seq) (hm : m.validate = .ok ()) (hmodel : t.model = m)
    (hseq : seq < o.seq) :
    Moves m o (t.current.expire m.window o.seq) (t.step o).1.current (t.step o).2 := by
  obtain ⟨st, hmeets, hst⟩ := step_meets t o
  rw [hmodel] at hmeets
  rw [hst]
  generalize hb : (t.step o).1.current = b' at hmeets ⊢
  cases hmeets with
  | absent hr =>
      refine .keeps rfl (by simp [FieldStep.held]) ?_ rfl rfl
      intro c hc
      obtain ⟨-, raw, hraw, -⟩ := FieldModel.shown_eq_some_iff.mp hc
      cases hr.symm.trans hraw
  | faint hr hf =>
      refine .keeps rfl (by simp [FieldStep.held]) ?_ rfl rfl
      intro c hc
      cases hf.symm.trans (FieldModel.shown_eq_some_iff.mp hc).1
  | stray hr hf hn => exact .keeps rfl (by simp [rejected, FieldStep.held]) (fun _ _ => rfl) rfl rfl
  | refused hs hc => exact .keeps rfl (by simp [rejected, FieldStep.held]) (fun _ _ => rfl) rfl rfl
  | accepted hs hc => exact .accepts hs hc rfl rfl rfl
  | @suspected c hs hc =>
      have hnot : m.classify t.current.value c (t.current.elapsed o.frame) ≠ .reject :=
        ne_of_eq_of_ne hc (by decide)
      have hconf := confirmed?_eq h hm hseq hnot o.frame o.seq
      simp only [suspectCandidate, hconf]
      cases hv : Belief.majority _ m.majority with
      | none => exact .buffers hs hc hv rfl rfl rfl
      | some v =>
          obtain ⟨rfl, hmany⟩ := h.majority_push hm hseq hv
          exact .confirms hs hc hmany.ge rfl rfl rfl

theorem Moves.held_or_taken {b' : Belief} {st : FieldStep} (h : Moves m o b b' st) :
    (st.outcome.isAccepted = false ∧ st.revision = none ∧ st.value = b.value ∧
      b'.accepted = b.accepted) ∨
    ∃ c, st.outcome.isAccepted = true ∧ m.shown o.reading o.confidence = some c ∧
      st.value = some c ∧ b'.accepted = some (c, o.frame) := by
  cases h with
  | keeps ha _ _ hv hr => exact .inl ⟨ha, hr, hv, rfl⟩
  | buffers _ _ _ ho hv hr => exact .inl ⟨by rw [ho]; rfl, hr, hv, rfl⟩
  | accepts hs _ ho hv _ => exact .inr ⟨_, by rw [ho]; rfl, hs, hv, rfl⟩
  | confirms hs _ _ ho hv _ => exact .inr ⟨_, by rw [ho]; rfl, hs, hv, rfl⟩

end Track

end GameTimeline
