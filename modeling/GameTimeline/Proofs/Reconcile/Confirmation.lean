import GameTimeline.Proofs.Reconcile.Operation

namespace GameTimeline

namespace Track

variable {m : FieldModel} {t : Track} {o : Observation} {b : Belief} {last : Option Nat}
  {seq : Nat} {c v : FieldValue}

def joinWaiting (m : FieldModel) (o : Observation) (b : Belief) (c : FieldValue) :
    Belief × FieldStep :=
  let b' := { b with pending := b.pending ++ [⟨o.frame, o.seq, c⟩] }
  if Belief.votes b.pending c + 1 = m.majority then confirm m o b' c
  else (b', .held b' .suspect [])

def offered (m : FieldModel) (t : Track) (o : Observation) (c : FieldValue) : Belief :=
  (t.current.expire m.window o.seq).push m.window ⟨o.frame, o.seq, c⟩

structure Exact (m : FieldModel) (t : Track) (o : Observation) (c : FieldValue) : Prop where
  room : (t.current.expire m.window o.seq).evicted m.window = []
  agreed : ∀ v, (offered m t o c).majority m.majority = some v →
    v = c ∧ Belief.votes (offered m t o c).pending v = m.majority ∧
      m.classify (offered m t o c).value v ((offered m t o c).elapsed o.frame) ≠ .reject
  belief : (t.step o).1.current = (joinWaiting m o (t.current.expire m.window o.seq) c).1
  report : (t.step o).2 =
    (addDiscards (t.staleDiscards o) (joinWaiting m o (t.current.expire m.window o.seq) c)).2

theorem step_of_suspect (hmodel : t.model = m) (hs : m.shown o.reading o.confidence = some c)
    (hc : m.classify t.current.value c (t.current.elapsed o.frame) = .suspect) :
    (t.step o).1.current = (suspectCandidate m o (t.current.expire m.window o.seq) c).1 ∧
      (t.step o).2 = (addDiscards (t.staleDiscards o)
        (suspectCandidate m o (t.current.expire m.window o.seq) c)).2 := by
  obtain ⟨st, hmeets, hst⟩ := step_meets t o
  rw [hmodel] at hmeets
  rw [hst]
  obtain ⟨hclear, raw, hraw, hn⟩ := FieldModel.shown_eq_some_iff.mp hs
  have other {c' : FieldValue} {verdict : Verdict}
      (hs' : m.shown o.reading o.confidence = some c')
      (hc' : m.classify t.current.value c' (t.current.elapsed o.frame) = verdict) :
      verdict = .suspect := by
    obtain rfl := Option.some.inj (hs.symm.trans hs')
    exact hc'.symm.trans hc
  generalize (t.step o).1.current = b' at hmeets ⊢
  cases hmeets with
  | absent hr => cases hr.symm.trans hraw
  | faint _ hf => cases hf.symm.trans hclear
  | stray hr _ hn' =>
      obtain rfl := Option.some.inj (hraw.symm.trans hr)
      cases hn'.symm.trans hn
  | refused hs' hc' => cases other hs' hc'
  | accepted hs' hc' => cases other hs' hc'
  | suspected hs' _ =>
      obtain rfl := Option.some.inj (hs.symm.trans hs')
      exact ⟨rfl, rfl⟩

theorem suspectCandidate_eq (h : b.Waiting m seq) (hm : m.validate = .ok ()) (hseq : seq < o.seq)
    (hc : m.classify b.value c (b.elapsed o.frame) = .suspect) :
    suspectCandidate m o (b.expire m.window o.seq) c =
      joinWaiting m o (b.expire m.window o.seq) c := by
  have hroom := h.room hm hseq
  have hpush : (b.expire m.window o.seq).push m.window ⟨o.frame, o.seq, c⟩ =
      { b.expire m.window o.seq with
        pending := (b.expire m.window o.seq).pending ++ [⟨o.frame, o.seq, c⟩] } := by
    rw [Belief.push, Belief.evicted_eq_nil hroom]
    rfl
  have hvotes := h.votes_push hm hseq ⟨o.frame, o.seq, c⟩ c
  rw [show Belief.votes [⟨o.frame, o.seq, c⟩] c = 1 from
    Belief.votes_singleton_self ⟨o.frame, o.seq, c⟩] at hvotes
  have hconf := confirmed?_eq h hm hseq (o := o) (ne_of_eq_of_ne hc (by decide)) o.frame o.seq
  simp only [suspectCandidate, joinWaiting, hconf, h.evicts_nothing hm hseq]
  rw [← hvotes, ← hpush]
  cases hv : Belief.majority _ m.majority with
  | none =>
      have hfew := Belief.votes_lt_of_majority_none (FieldModel.majority_pos hm) hv c
      rw [if_neg (Nat.ne_of_lt hfew)]
      rfl
  | some v =>
      obtain ⟨rfl, hmany⟩ := h.majority_push hm hseq hv
      rw [if_pos hmany]
      rfl

theorem exact_of_suspect (h : t.current.Waiting m seq) (hm : m.validate = .ok ())
    (hmodel : t.model = m) (hseq : seq < o.seq) (hs : m.shown o.reading o.confidence = some c)
    (hc : m.classify t.current.value c (t.current.elapsed o.frame) = .suspect) :
    Exact m t o c := by
  obtain ⟨hbelief, hreport⟩ := step_of_suspect hmodel hs hc
  rw [suspectCandidate_eq h hm hseq hc] at hbelief hreport
  refine ⟨h.evicts_nothing hm hseq, ?_, hbelief, hreport⟩
  intro v hv
  obtain ⟨rfl, hmany⟩ := h.majority_push hm hseq hv
  exact ⟨rfl, hmany, ne_of_eq_of_ne hc (by decide)⟩

end Track

namespace Reconciler

theorem confirmation_exact {s : ModelSet} {ops : List Operation} {r : Reconciler}
    (hr : (new s).performAll ops = r) :
    (∀ n m b, s.get? n = some m → r.belief? n = some b →
      ∀ v, Belief.votes b.pending v < m.majority) ∧
    ∀ n m t f c, s.get? n = some m → r.tracks.get? n = some t →
      m.shown (f.reading n) (f.confidenceOf n) = some c →
      m.classify t.current.value c (t.current.elapsed f.frame) = .suspect →
      Track.Exact m t (r.observation f n) c := by
  have hsound : Sound s r := hr ▸ (Sound.start s).performAll ops
  constructor
  · intro n m b hm hb
    obtain ⟨t, ht, rfl⟩ := current_of_belief? hb
    exact (hsound.track n m t hm ht).2.few
  · intro n m t f c hm ht hs hc
    obtain ⟨hmodel, hstanding⟩ := hsound.track n m t hm ht
    exact Track.exact_of_suspect hstanding.toWaiting (ModelSet.validate_of_get? hm) hmodel
      (Nat.lt_succ_self _) hs hc

theorem confirmation_exact_gold : ∃ r t o,
    (new (.single (.boundedDelta "gold" 1) rfl)).performAll
        [.step (.showing 0 "gold" 5), .step (.showing 1 "gold" 9),
          .skip (.showing 2 "gold" 7)] = r ∧
      r.tracks.get? "gold" = some t ∧ r.observation (.showing 3 "gold" 9) "gold" = o ∧
      (∀ v, Belief.votes t.current.pending v < 2) ∧
      Track.Exact (.boundedDelta "gold" 1) t o (.int 9) ∧
      (t.step o).1.current.accepted = some (.int 9, 3) := by
  have hrun : ∃ r t b o,
      (new (.single (.boundedDelta "gold" 1) rfl)).performAll
          [.step (.showing 0 "gold" 5), .step (.showing 1 "gold" 9),
            .skip (.showing 2 "gold" 7)] = r ∧
        r.tracks.get? "gold" = some t ∧ r.belief? "gold" = some b ∧ t.current = b ∧
        r.observation (.showing 3 "gold" 9) "gold" = o ∧
        (FieldModel.boundedDelta "gold" 1).classify t.current.value (.int 9)
          (t.current.elapsed 3) = .suspect ∧
        (t.step o).1.current.accepted = some (.int 9, 3) :=
    ⟨_, _, _, _, rfl, rfl, rfl, rfl, rfl, rfl, rfl⟩
  obtain ⟨r, t, b, o, hr, ht, hb, rfl, rfl, hc, hend⟩ := hrun
  obtain ⟨hfew, hexact⟩ := confirmation_exact hr
  exact ⟨r, t, _, hr, ht, rfl, hfew _ _ _ rfl hb,
    hexact "gold" _ t (.showing 3 "gold" 9) (.int 9) rfl ht rfl hc, hend⟩

end Reconciler

end GameTimeline
