import GameTimeline.Proofs.Reconcile.Confirmation
import GameTimeline.Proofs.Reconcile.Reach

namespace GameTimeline

def Discard.count (reason : DiscardReason) (ds : List Discard) : Nat :=
  ds.countP (·.reason = reason)

namespace Discard

theorem count_append (reason : DiscardReason) (ds es : List Discard) :
    count reason (ds ++ es) = count reason ds + count reason es :=
  List.countP_append

theorem count_ofPending (reason reason' : DiscardReason) (ps : List Pending) :
    count reason (ps.map (ofPending reason')) = if reason' = reason then ps.length else 0 := by
  by_cases hr : reason' = reason <;> simp [count, List.countP_map, Function.comp_def, ofPending, hr]

end Discard

namespace Track

variable {m : FieldModel} {past : List (Observation × FieldStep)} {t : Track} {o : Observation}
  {b b' : Belief} {st : FieldStep} {last : Option Nat} {seq : Nat} {c v : FieldValue}

theorem count_superseded (reason : DiscardReason) (ps : List Pending) (v : FieldValue) :
    Discard.count reason (superseded ps v) =
      if reason = .suspectSuperseded then ps.countP (·.value ≠ v) else 0 := by
  rw [superseded, Discard.count_ofPending, List.countP_eq_length_filter]
  simp only [eq_comm]

theorem superseded_concat (ps : List Pending) (frame seq : Nat) (v : FieldValue) :
    superseded (ps ++ [⟨frame, seq, v⟩]) v = superseded ps v := by
  simp [superseded]

inductive Resolves (m : FieldModel) (o : Observation) (b : Belief) : Belief → FieldStep → Prop
  | absent : o.reading = none → Resolves m o b b (.held (some b) .absent [])
  | faint {raw : FieldValue} : o.reading = some raw → m.isClear o.confidence = false →
      Resolves m o b b (.held (some b) .lowConfidence [⟨o.frame, raw, .lowConfidence⟩])
  | stray {raw : FieldValue} : o.reading = some raw → m.isClear o.confidence = true →
      m.normalize raw = none →
      Resolves m o b b (.held (some b) .rejected [⟨o.frame, raw, .rejected⟩])
  | refused {c : FieldValue} : m.shown o.reading o.confidence = some c →
      m.classify b.value c (b.elapsed o.frame) = .reject →
      Resolves m o b b (.held (some b) .rejected [⟨o.frame, c, .rejected⟩])
  | joined {c : FieldValue} : m.shown o.reading o.confidence = some c →
      m.classify b.value c (b.elapsed o.frame) = .suspect →
      Resolves m o b { b with pending := b.pending ++ [⟨o.frame, o.seq, c⟩] }
        (.held (some b) .suspect [])
  | accepted {c : FieldValue} : m.shown o.reading o.confidence = some c →
      m.classify b.value c (b.elapsed o.frame) = .accept →
      Resolves m o b (.accept c o.frame)
        ⟨some c, .accepted, m.isTerminal c,
          Revision.upTo? o.previousFrame (agreeing b.pending c) c, superseded b.pending c⟩
  | confirmed {c : FieldValue} : m.shown o.reading o.confidence = some c →
      m.classify b.value c (b.elapsed o.frame) = .suspect →
      Resolves m o b (.accept c o.frame)
        ⟨some c, .confirmed, m.isTerminal c,
          Revision.upTo? o.previousFrame (b.pending ++ [⟨o.frame, o.seq, c⟩]) c,
          superseded b.pending c⟩

theorem resolves (h : t.current.Waiting m seq) (hm : m.validate = .ok ()) (hmodel : t.model = m)
    (hseq : seq < o.seq) :
    ∃ st, Resolves m o (t.current.expire m.window o.seq) (t.step o).1.current st ∧
      (t.step o).2 = { st with discarded := t.staleDiscards o ++ st.discarded } := by
  obtain ⟨st, hmeets, hst⟩ := step_meets t o
  rw [hmodel] at hmeets
  refine ⟨st, ?_, hst⟩
  generalize (t.step o).1.current = b' at hmeets ⊢
  cases hmeets with
  | absent hr => exact .absent hr
  | faint hr hf => exact .faint hr hf
  | stray hr hf hn => exact .stray hr hf hn
  | refused hs hc => exact .refused hs hc
  | accepted hs hc => exact .accepted hs hc
  | suspected hs hc =>
      rw [suspectCandidate_eq h hm hseq hc, joinWaiting]
      split
      · simp only [confirm, superseded_concat]
        exact .confirmed hs hc
      · exact .joined hs hc

structure Settles (m : FieldModel) (o : Observation) (b : Belief) (st : FieldStep) : Prop where
  absent : st.outcome = .absent ↔ o.reading = none
  value : st.outcome.isAccepted = true → ∃ c, st.value = some c
  terminal : st.isTerminal = true ↔
    st.outcome.isAccepted = true ∧ ∃ v, st.value = some v ∧ m.terminal = some v
  faint : Discard.count .lowConfidence st.discarded = if st.outcome = .lowConfidence then 1 else 0
  expired : Discard.count .suspectExpired st.discarded = 0
  superseded : Discard.count .suspectSuperseded st.discarded =
    if st.outcome.isAccepted then b.pending.countP (some ·.value ≠ st.value) else 0

theorem Resolves.settles (h : Resolves m o b b' st) : Settles m o b st := by
  have read {c : FieldValue} (hs : m.shown o.reading o.confidence = some c) : o.reading ≠ none := by
    obtain ⟨-, raw, hr, -⟩ := FieldModel.shown_eq_some_iff.mp hs
    simp [hr]
  cases h with
  | absent hr => constructor <;> simp [FieldStep.held, hr, Outcome.isAccepted, Discard.count]
  | faint hr _ => constructor <;> simp [FieldStep.held, hr, Outcome.isAccepted, Discard.count]
  | stray hr _ _ => constructor <;> simp [FieldStep.held, hr, Outcome.isAccepted, Discard.count]
  | refused hs _ =>
      constructor <;> simp [FieldStep.held, read hs, Outcome.isAccepted, Discard.count]
  | joined hs _ =>
      constructor <;> simp [FieldStep.held, read hs, Outcome.isAccepted, Discard.count]
  | accepted hs _ =>
      constructor <;>
        simp [read hs, Outcome.isAccepted, count_superseded, FieldModel.isTerminal]
  | confirmed hs _ =>
      constructor <;>
        simp [read hs, Outcome.isAccepted, count_superseded, FieldModel.isTerminal]

theorem settles (h : t.current.Waiting m seq) (hm : m.validate = .ok ()) (hmodel : t.model = m)
    (hseq : seq < o.seq) :
    ∃ st, Settles m o (t.current.expire m.window o.seq) st ∧
      (t.step o).2 = { st with discarded := t.staleDiscards o ++ st.discarded } := by
  obtain ⟨st, hresolves, hst⟩ := resolves h hm hmodel hseq
  exact ⟨st, hresolves.settles, hst⟩

theorem Run.standing (hm : m.validate = .ok ()) (h : Run m past t) :
    t.current.Standing m (past.head?.map (·.1.frame)) past.length := by
  induction h with
  | start => exact .empty hm
  | @step past t o hrun hseq hprev hhead ih =>
      have hmodel := (hrun.explained hm).model
      have hlast : ∀ l, past.head?.map (·.1.frame) = some l → l < o.frame := by
        intro l hl
        obtain ⟨e, he, rfl⟩ := Option.map_eq_some_iff.mp hl
        exact hhead e he
      have hnext := (standing_step ih hm hmodel hlast (hseq ▸ Nat.lt_succ_self _)).1
      rw [hseq] at hnext
      exact hnext

theorem Run.pending_suspect (hm : m.validate = .ok ()) (h : Run m past t) :
    ∀ p ∈ t.current.pending,
      m.classify t.current.value p.value (t.current.elapsed p.frame) = .suspect := by
  induction h with
  | start => exact fun _ hp => nomatch hp
  | @step past t o hrun hseq _ _ ih =>
      intro p hp
      have hlt : past.length < o.seq := by omega
      obtain ⟨st, hresolves, -⟩ := resolves (hrun.standing hm).toWaiting hm
        (hrun.explained hm).model hlt
      generalize (t.step o).1.current = b' at hp hresolves ⊢
      have hold {p : Pending} (hp : p ∈ (t.current.expire m.window o.seq).pending) :=
        ih p (Belief.expire_subset _ _ _ hp)
      cases hresolves with
      | absent _ => exact hold hp
      | faint _ _ => exact hold hp
      | stray _ _ _ => exact hold hp
      | refused _ _ => exact hold hp
      | joined hs hc =>
          rcases List.mem_append.mp hp with hp | hp
          · exact hold hp
          · rw [List.mem_singleton.mp hp]
            exact hc
      | accepted _ _ => cases hp
      | confirmed _ _ => cases hp

theorem Run.entry_le_head (h : Run m past t) {e : Observation × FieldStep} (he : e ∈ past) :
    ∃ last, past.head?.map (·.1.frame) = some last ∧ e.1.frame ≤ last := by
  have hord := h.frames
  cases past with
  | nil => cases he
  | cons e' older =>
      refine ⟨e'.1.frame, rfl, ?_⟩
      rcases List.mem_cons.mp he with rfl | he
      · exact Nat.le_refl _
      · exact Nat.le_of_lt ((List.pairwise_cons.mp hord).1 e he)

theorem upTo?_of_head {p : Pending} {ps : List Pending} {l : Nat} (hp : ps.head? = some p)
    (hle : p.frame ≤ l) (v : FieldValue) :
    Revision.upTo? (some l) ps v = some ⟨p.frame, l, v⟩ := by
  simp [Revision.upTo?, hp, hle]

structure Reaches (b : Belief) (c : FieldValue) (last : Option Nat) (rev : Revision) : Prop where
  first : ∃ p ∈ b.pending, p.frame = rev.first
  last : last = some rev.last
  value : rev.value = c
  least : ∀ q ∈ b.pending, q.value = c → rev.first ≤ q.frame

theorem reaches_of_head {p : Pending} (hprev : o.previousFrame = last)
    (hreached : ∀ p ∈ b.pending, ∃ l, last = some l ∧ p.frame ≤ l) (hp : p ∈ b.pending)
    (hleast : ∀ q ∈ b.pending, q.value = c → p.frame ≤ q.frame) {ps : List Pending}
    (hhead : ps.head? = some p) :
    ∃ rev, Revision.upTo? o.previousFrame ps c = some rev ∧ Reaches b c last rev := by
  obtain ⟨l, hl, hle⟩ := hreached p hp
  refine ⟨⟨p.frame, l, c⟩, ?_, ⟨p, hp, rfl⟩, hl, rfl, hleast⟩
  rw [hprev, hl]
  exact upTo?_of_head hhead hle c

theorem revision_of_agreeing (hs : b.Standing m last seq) (hprev : o.previousFrame = last) :
    (∃ rev, Revision.upTo? o.previousFrame (agreeing b.pending c) c = some rev ∧
        Reaches b c last rev) ∨
      Revision.upTo? o.previousFrame (agreeing b.pending c) c = none ∧
        ∀ q ∈ b.pending, q.value ≠ c := by
  have hsplit : b.pending.takeWhile (·.value ≠ c) ++ agreeing b.pending c = b.pending :=
    List.takeWhile_append_dropWhile
  have hbefore : ∀ q ∈ b.pending.takeWhile (·.value ≠ c), q.value ≠ c := by
    intro q hq
    simpa using List.mem_takeWhile_imp hq
  cases hagree : agreeing b.pending c with
  | nil =>
      refine .inr ⟨rfl, fun q hq => hbefore q ?_⟩
      rwa [← hsplit, hagree, List.append_nil] at hq
  | cons p ps =>
      left
      rw [hagree] at hsplit
      have hp : p ∈ b.pending := hsplit ▸ List.mem_append_right _ (List.mem_cons_self ..)
      refine reaches_of_head hprev hs.reached hp ?_ rfl
      intro q hq hvalue
      have hord := hs.frames
      rw [← hsplit] at hq hord
      rcases List.mem_append.mp hq with hq | hq
      · exact absurd hvalue (hbefore q hq)
      · rcases List.mem_cons.mp hq with rfl | hq
        · exact Nat.le_refl _
        · have hrest := (List.pairwise_append.mp hord).2.1
          exact Nat.le_of_lt ((List.pairwise_cons.mp hrest).1 q hq)

theorem revision_of_majority (hs : b.Standing m last seq) (hprev : o.previousFrame = last)
    (hlast : ∀ l, last = some l → l < o.frame) :
    (∃ rev, Revision.upTo? o.previousFrame (b.pending ++ [⟨o.frame, o.seq, c⟩]) c = some rev ∧
        Reaches b c last rev) ∨
      Revision.upTo? o.previousFrame (b.pending ++ [⟨o.frame, o.seq, c⟩]) c = none ∧
        ∀ q ∈ b.pending, q.value ≠ c := by
  cases hb : b.pending with
  | nil =>
      -- the candidate itself lies after all earlier frames
      refine .inr ⟨?_, fun _ hq => nomatch hq⟩
      cases hl : last with
      | none => simp [Revision.upTo?, hprev, hl]
      | some l => simp [Revision.upTo?, hprev, hl, hlast l hl]
  | cons p ps =>
      left
      refine reaches_of_head hprev hs.reached (hb ▸ List.mem_cons_self ..) ?_ rfl
      intro q hq _
      have hord := hs.frames
      rw [hb] at hq hord
      rcases List.mem_cons.mp hq with rfl | hq
      · exact Nat.le_refl _
      · exact Nat.le_of_lt ((List.pairwise_cons.mp hord).1 q hq)

theorem Resolves.revision (h : Resolves m o b b' st) (hs : b.Standing m last seq)
    (hprev : o.previousFrame = last) (hlast : ∀ l, last = some l → l < o.frame) :
    (st.outcome.isAccepted = false ∧ st.revision = none) ∨
      ∃ c, st.outcome.isAccepted = true ∧ st.value = some c ∧ b'.accepted = some (c, o.frame) ∧
        ((∃ rev, st.revision = some rev ∧ Reaches b c last rev) ∨
          st.revision = none ∧ ∀ q ∈ b.pending, q.value ≠ c) := by
  cases h with
  | absent _ => exact .inl ⟨rfl, rfl⟩
  | faint _ _ => exact .inl ⟨rfl, rfl⟩
  | stray _ _ _ => exact .inl ⟨rfl, rfl⟩
  | refused _ _ => exact .inl ⟨rfl, rfl⟩
  | joined _ _ => exact .inl ⟨rfl, rfl⟩
  | accepted _ _ => exact .inr ⟨_, rfl, rfl, rfl, revision_of_agreeing hs hprev⟩
  | confirmed _ _ => exact .inr ⟨_, rfl, rfl, rfl, revision_of_majority hs hprev hlast⟩

theorem accepted_before_suspect (hord : past.Pairwise (·.1.frame > ·.1.frame)) {p : Pending}
    (hp : p ∈ suspects m past) :
    ∀ e ∈ past, e.2.outcome.isAccepted = true → e.1.frame < p.frame := by
  induction past with
  | nil => cases hp
  | cons e older ih =>
      obtain ⟨he, hrest⟩ := List.pairwise_cons.mp hord
      intro x hx hacc
      have hnot : e.2.outcome.isAccepted ≠ true := by
        intro ha
        rw [suspects_cons_accepted ha] at hp
        cases hp
      have hx : x ∈ older := by
        rcases List.mem_cons.mp hx with rfl | hx
        · exact absurd hacc hnot
        · exact hx
      rcases mem_suspects_cons hp with hold | ⟨hframe, -⟩
      · exact ih hrest hold x hx hacc
      · rw [hframe]
        exact he x hx

theorem countP_suspects_since (hord : past.Pairwise (·.1.frame > ·.1.frame)) {g : Nat}
    (hacc : ∀ e ∈ past, e.2.outcome.isAccepted = true → e.1.frame < g) (c : FieldValue) :
    (suspects m past).countP (fun p => g ≤ p.frame && p.value = c) =
      past.countP fun e => g ≤ e.1.frame && bears m c e := by
  induction past with
  | nil => rfl
  | cons e older ih =>
      obtain ⟨he, hrest⟩ := List.pairwise_cons.mp hord
      have hold := ih hrest fun x hx => hacc x (List.mem_cons_of_mem _ hx)
      rw [List.countP_cons, ← hold]
      cases ha : e.2.outcome.isAccepted with
      | true =>
          have hlt := hacc e (List.mem_cons_self ..) ha
          have hnone : older.countP (fun e => g ≤ e.1.frame && bears m c e) = 0 := by
            refine List.countP_eq_zero.mpr fun x hx => ?_
            have := he x hx
            simp only [Bool.and_eq_true, decide_eq_true_eq, not_and]
            intro hge
            omega
          rw [suspects_cons_accepted ha, hold, hnone]
          simp [Nat.not_le.mpr hlt]
      | false =>
          by_cases hs : e.2.outcome = .suspect
          · rw [suspects_cons_shown hs, List.countP_append]
            cases hc : m.shown e.1.reading e.1.confidence with
            | none => simp [bears, hc]
            | some w => simp [bears, hs, hc, List.countP_cons]
          · rw [suspects_cons_kept ha hs]
            simp [bears, hs]

end Track

end GameTimeline
