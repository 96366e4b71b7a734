import GameTimeline.Proofs.Reconcile.Fate

namespace GameTimeline

namespace Belief

def without (drop : Nat → Bool) (b : Belief) : Belief :=
  { b with pending := b.pending.filter (!drop ·.frame) }

variable {drop : Nat → Bool} {b : Belief}

@[simp] theorem without_value : (b.without drop).value = b.value := rfl

@[simp] theorem without_elapsed (frame : Nat) : (b.without drop).elapsed frame = b.elapsed frame :=
  rfl

theorem votes_without {v : FieldValue}
    (h : ∀ p ∈ b.pending, p.value = v → drop p.frame = false) :
    votes (b.without drop).pending v = votes b.pending v := by
  rw [votes, votes, without, List.countP_filter]
  refine List.countP_congr fun p hp => ?_
  by_cases hv : p.value = v
  · simp [hv, h p hp hv]
  · simp [hv]

theorem votes_without_le (v : FieldValue) : votes (b.without drop).pending v ≤ votes b.pending v :=
  List.filter_sublist.countP_le

theorem expire_without (hseqs : b.pending.Pairwise (·.seq < ·.seq)) (window seq : Nat) :
    (b.without drop).expire window seq = (b.expire window seq).without drop := by
  have hpending : ((b.without drop).expire window seq).pending =
      ((b.expire window seq).without drop).pending := by
    rw [expire_pending (hseqs.filter _), without, without, expire_pending hseqs, List.filter_filter,
      List.filter_filter]
    exact List.filter_congr fun p _ => Bool.and_comm _ _
  exact congrArg (Belief.mk b.accepted) hpending

end Belief

namespace Track

variable {m : FieldModel} {t : Track} {o : Observation} {b : Belief} {c : FieldValue}

def respond (m : FieldModel) (o : Observation) (b : Belief) : Belief × FieldStep :=
  match o.reading with
  | none => (b, .held (some b) .absent [])
  | some raw =>
      if m.isClear o.confidence then
        match m.normalize raw with
        | none => rejected o b raw
        | some c =>
            match m.classify b.value c (b.elapsed o.frame) with
            | .accept => acceptCandidate m o b c
            | .reject => rejected o b c
            | .suspect => joinWaiting m o b c
      else (b, .held (some b) .lowConfidence [⟨o.frame, raw, .lowConfidence⟩])

theorem respond_of_shown (hs : m.shown o.reading o.confidence = some c) :
    respond m o b = match m.classify b.value c (b.elapsed o.frame) with
      | .accept => acceptCandidate m o b c
      | .reject => rejected o b c
      | .suspect => joinWaiting m o b c := by
  obtain ⟨hclear, raw, hr, hn⟩ := FieldModel.shown_eq_some_iff.mp hs
  simp only [respond, hr, hclear, hn, if_true]

theorem respond_of_unseen (hs : m.shown o.reading o.confidence = none) :
    ∃ outcome ds, outcome.isAccepted = false ∧
      ∀ b, respond m o b = (b, .held (some b) outcome ds) := by
  cases hr : o.reading with
  | none => exact ⟨.absent, [], rfl, fun b => by simp [respond, hr]⟩
  | some raw =>
      cases hclear : m.isClear o.confidence with
      | false => exact ⟨.lowConfidence, _, rfl, fun b => by simp [respond, hr, hclear]; rfl⟩
      | true =>
          have hn : m.normalize raw = none := by simpa [FieldModel.shown, hclear, hr] using hs
          exact ⟨.rejected, _, rfl, fun b => by simp [respond, hr, hclear, hn, rejected]; rfl⟩

theorem step_responds {seq : Nat} (h : t.current.Waiting m seq) (hm : m.validate = .ok ())
    (hmodel : t.model = m) (hseq : seq < o.seq) :
    ((t.step o).1.current, (t.step o).2) =
      addDiscards (t.staleDiscards o) (respond m o (t.current.expire m.window o.seq)) := by
  obtain ⟨st, hmeets, hst⟩ := step_meets t o
  rw [hmodel] at hmeets
  have hrespond : ((t.step o).1.current, st) = respond m o (t.current.expire m.window o.seq) := by
    generalize (t.step o).1.current = b' at hmeets ⊢
    cases hmeets with
    | absent hr => simp [respond, hr]
    | faint hr hf => simp [respond, hr, hf]
    | stray hr hf hn => simp [respond, hr, hf, hn]
    | refused hs hc => rw [respond_of_shown hs, hc]
    | accepted hs hc => rw [respond_of_shown hs, hc]
    | suspected hs hc => rw [respond_of_shown hs, hc, suspectCandidate_eq h hm hseq hc]
  rw [← hrespond, hst]
  rfl

end Track

def Observation.without (drop : Nat → Bool) (o : Observation) : Observation :=
  { o with reading := if drop o.frame then none else o.reading }

namespace Track

variable {m : FieldModel} {past past' : List (Observation × FieldStep)} {t t' : Track}
  {o : Observation} {e e' : Observation × FieldStep} {b : Belief} {st st' : FieldStep}
  {drop : Nat → Bool} {ps qs : List Pending} {c : FieldValue}

/-- Two steps on the same frame, the first without some of the readings `ps` that wait at the
second: only where a majority confirms does the revision begin with what waits. -/
structure Alike (drop : Nat → Bool) (o : Observation) (ps : List Pending) (st' st : FieldStep) :
    Prop where
  value : st'.value = st.value
  accepted : st'.outcome.isAccepted = st.outcome.isAccepted
  terminal : st'.isTerminal = st.isTerminal
  revision : st.outcome ≠ .confirmed → st'.revision = st.revision
  confirmed : st.outcome = .confirmed → ∃ c, st.value = some c ∧
    st.revision = Revision.upTo? o.previousFrame (ps ++ [⟨o.frame, o.seq, c⟩]) c ∧
      st'.revision = Revision.upTo? o.previousFrame
        (ps.filter (!drop ·.frame) ++ [⟨o.frame, o.seq, c⟩]) c

theorem Alike.of_held (hvalue : st'.value = st.value) (ha' : st'.outcome.isAccepted = false)
    (ha : st.outcome.isAccepted = false) (hterminal : st'.isTerminal = st.isTerminal)
    (hrevision : st'.revision = st.revision) : Alike drop o ps st' st where
  value := hvalue
  accepted := ha'.trans ha.symm
  terminal := hterminal
  revision _ := hrevision
  confirmed hconfirmed := by
    rw [hconfirmed] at ha
    cases ha

theorem upTo?_congr {previous : Option Nat} (h : ps.head? = qs.head?) (c : FieldValue) :
    Revision.upTo? previous ps c = Revision.upTo? previous qs c := by
  simp only [Revision.upTo?, h]

theorem head?_agreeing (ps : List Pending) (c : FieldValue) :
    (agreeing ps c).head? = ps.find? (·.value = c) := by
  induction ps with
  | nil => rfl
  | cons p ps ih =>
      by_cases hp : p.value = c
      · simp [agreeing, hp]
      · simpa [agreeing, hp] using ih

theorem agreeing_without (h : ∀ p ∈ ps, p.value = c → drop p.frame = false) :
    (agreeing (ps.filter (!drop ·.frame)) c).head? = (agreeing ps c).head? := by
  rw [head?_agreeing, head?_agreeing, ← List.head?_filter, ← List.head?_filter, List.filter_filter]
  refine congrArg List.head? (List.filter_congr fun p hp => ?_)
  by_cases hv : p.value = c
  · simp [hv, h p hp hv]
  · simp [hv]

theorem respond_omitted (hdrop : drop o.frame = true)
    (ha : (respond m o b).2.outcome.isAccepted = false) :
    (respond m (o.without drop) (b.without drop)).1 = (respond m o b).1.without drop ∧
      Alike drop o b.pending (respond m (o.without drop) (b.without drop)).2 (respond m o b).2 := by
  have homit : respond m (o.without drop) (b.without drop) =
      (b.without drop, .held (some (b.without drop)) .absent []) := by
    simp [respond, Observation.without, hdrop]
  rw [homit]
  cases hs : m.shown o.reading o.confidence with
  | none =>
      obtain ⟨outcome, ds, hout, hall⟩ := respond_of_unseen hs
      rw [hall b]
      exact ⟨rfl, .of_held rfl rfl hout rfl rfl⟩
  | some c =>
      rw [respond_of_shown hs] at ha ⊢
      cases hv : m.classify b.value c (b.elapsed o.frame) with
      | accept =>
          rw [hv] at ha
          cases ha
      | reject => exact ⟨rfl, .of_held rfl rfl rfl rfl rfl⟩
      | suspect =>
          simp only [hv, joinWaiting] at ha ⊢
          split at ha
          · cases ha
          · rename_i hnot
            rw [if_neg hnot]
            refine ⟨?_, .of_held rfl rfl rfl rfl rfl⟩
            simp [Belief.without, hdrop]

theorem respond_kept (hkept : drop o.frame = false)
    (hfew : ∀ v, Belief.votes b.pending v < m.majority)
    (hspared : ∀ g ∈ proven o (respond m o b).2 b.pending, drop g = false) :
    (respond m (o.without drop) (b.without drop)).1 = (respond m o b).1.without drop ∧
      Alike drop o b.pending (respond m (o.without drop) (b.without drop)).2 (respond m o b).2 := by
  have homit : o.without drop = o := by
    simp [Observation.without, hkept]
  -- what waits for a value that is taken up stays
  have hsupport {c : FieldValue} (ha : (respond m o b).2.outcome.isAccepted = true)
      (hc : (respond m o b).2.value = some c) :
      ∀ p ∈ b.pending, p.value = c → drop p.frame = false := by
    intro p hp hv
    exact hspared p.frame (mem_proven_of_agrees ha hp (by rw [hv, hc]))
  rw [homit]
  cases hs : m.shown o.reading o.confidence with
  | none =>
      obtain ⟨outcome, ds, hout, hall⟩ := respond_of_unseen hs
      rw [hall b, hall (b.without drop)]
      exact ⟨rfl, .of_held rfl hout hout rfl rfl⟩
  | some c =>
      rw [respond_of_shown hs] at hsupport
      rw [respond_of_shown hs, respond_of_shown hs, Belief.without_value, Belief.without_elapsed]
      cases hv : m.classify b.value c (b.elapsed o.frame) with
      | accept =>
          rw [hv] at hsupport
          have hhead := agreeing_without (hsupport rfl rfl)
          exact ⟨rfl, rfl, rfl, rfl, fun _ => upTo?_congr hhead c, fun hout => nomatch hout⟩
      | reject => exact ⟨rfl, .of_held rfl rfl rfl rfl rfl⟩
      | suspect =>
          simp only [hv, joinWaiting] at hsupport ⊢
          by_cases hmany : Belief.votes b.pending c + 1 = m.majority
          · rw [if_pos hmany] at hsupport ⊢
            rw [Belief.votes_without (hsupport rfl rfl), if_pos hmany]
            exact ⟨rfl, rfl, rfl, rfl, fun hnot => absurd rfl hnot, fun _ => ⟨c, rfl, rfl, rfl⟩⟩
          · have hfew' : Belief.votes (b.without drop).pending c + 1 ≠ m.majority := by
              have hle : Belief.votes (b.without drop).pending c ≤ Belief.votes b.pending c :=
                Belief.votes_without_le c
              have hlt := hfew c
              omega
            rw [if_neg hmany, if_neg hfew']
            refine ⟨?_, .of_held rfl rfl rfl rfl rfl⟩
            simp [Belief.without, hkept]

theorem Alike.discarding (h : Alike drop o ps st' st) (ds ds' : List Discard) :
    Alike drop o ps { st' with discarded := ds' } { st with discarded := ds } :=
  ⟨h.value, h.accepted, h.terminal, h.revision, h.confirmed⟩

theorem Run.step_alike (hm : m.validate = .ok ()) (h : Run m past t) (h' : Run m past' t')
    (hcurrent : t'.current = t.current.without drop) (hlength : past'.length = past.length)
    (hseq : o.seq = past.length + 1)
    (hspared : ∀ g ∈ proven o (t.step o).2 (waiting m past), drop g = false) :
    (t'.step (o.without drop)).1.current = (t.step o).1.current.without drop ∧
      Alike drop o (waiting m past) (t'.step (o.without drop)).2 (t.step o).2 := by
  have hstanding := h.standing hm
  have hlt : past.length < o.seq := by omega
  have hlt' : past'.length < (o.without drop).seq := by
    rw [hlength]
    exact hlt
  have hstep := step_responds hstanding.toWaiting hm (h.explained hm).model hlt
  have hstep' := step_responds (h'.standing hm).toWaiting hm (h'.explained hm).model hlt'
  have hexpire : t'.current.expire m.window (o.without drop).seq =
      (t.current.expire m.window o.seq).without drop := by
    rw [hcurrent]
    exact Belief.expire_without hstanding.seqs m.window o.seq
  rw [hexpire] at hstep'
  have hfew := (hstanding.expire o.seq).few
  have hwaiting := h.waiting_eq hm hseq
  generalize t.current.expire m.window o.seq = b at hstep hstep' hfew hwaiting
  obtain ⟨hbelief, hreport⟩ := Prod.mk.inj hstep
  obtain ⟨hbelief', hreport'⟩ := Prod.mk.inj hstep'
  rw [hreport, ← hwaiting] at hspared
  rw [hbelief, hbelief', hreport, hreport', ← hwaiting]
  have hboth : (respond m (o.without drop) (b.without drop)).1 = (respond m o b).1.without drop ∧
      Alike drop o b.pending (respond m (o.without drop) (b.without drop)).2 (respond m o b).2 := by
    cases hdrop : drop o.frame with
    | false => exact respond_kept hdrop hfew hspared
    | true =>
        refine respond_omitted hdrop (Bool.eq_false_iff.mpr fun ha => ?_)
        -- a step that takes up a reading spares its own
        have hown := hspared o.frame (by rw [proven, if_pos ha]; exact List.mem_cons_self ..)
        rw [hdrop] at hown
        cases hown
  exact ⟨hboth.1, hboth.2.discarding _ _⟩

theorem Run.without (hm : m.validate = .ok ()) (h : Run m past t) (h' : Run m past' t')
    (hobs : past'.map (·.1) = past.map (·.1.without drop))
    (hspared : ∀ g ∈ provenIn m past, drop g = false) :
    t'.current = t.current.without drop := by
  induction past generalizing past' t t' with
  | nil =>
      obtain rfl := List.map_eq_nil_iff.mp hobs
      cases h
      cases h'
      rfl
  | cons e past ih =>
      cases past' with
      | nil => cases hobs
      | cons e' past' =>
          obtain ⟨hone, hrest⟩ := List.cons.inj hobs
          obtain ⟨t₀, hrun, hseq, -, -, hst, rfl⟩ := h.of_cons
          obtain ⟨t₀', hrun', -, -, -, -, rfl⟩ := h'.of_cons
          have hlength : past'.length = past.length := by
            simpa using congrArg List.length hrest
          have hold := ih hrun hrun' hrest fun g hg => hspared g (List.mem_append_right _ hg)
          have hnew := (hrun.step_alike hm hrun' hold hlength hseq fun g hg =>
            hspared g (List.mem_append_left _ (hst ▸ hg))).1
          have hobserved : e'.1 = e.1.without drop := hone
          rw [hobserved]
          exact hnew

theorem Run.alike (hm : m.validate = .ok ()) (h : Run m (e :: past) t) (h' : Run m (e' :: past') t')
    (hobs : (e' :: past').map (·.1) = (e :: past).map (·.1.without drop))
    (hspared : ∀ g ∈ provenIn m (e :: past), drop g = false) :
    Alike drop e.1 (waiting m past) e'.2 e.2 := by
  obtain ⟨hone, hrest⟩ := List.cons.inj hobs
  obtain ⟨t₀, hrun, hseq, -, -, hst, rfl⟩ := h.of_cons
  obtain ⟨t₀', hrun', -, -, -, hst', rfl⟩ := h'.of_cons
  have hlength : past'.length = past.length := by
    simpa using congrArg List.length hrest
  have hold := hrun.without hm hrun' hrest fun g hg => hspared g (List.mem_append_right _ hg)
  have hnew := (hrun.step_alike hm hrun' hold hlength hseq fun g hg =>
    hspared g (List.mem_append_left _ (hst ▸ hg))).2
  have hobserved : e'.1 = e.1.without drop := hone
  rwa [← hobserved, hst, hst'] at hnew

end Track

end GameTimeline
