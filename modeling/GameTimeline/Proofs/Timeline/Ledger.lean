import GameTimeline.Proofs.Timeline.Tally

namespace GameTimeline

namespace FieldQuality

def outcomes (q : FieldQuality) : Nat :=
  q.accepted + q.confirmed + q.held + q.rejected + q.suspect + q.lowConfidence

variable {q : FieldQuality} {st : FieldStep} {frames : Nat}

theorem addUnresolved_eq (q : FieldQuality) (v : Reading) : q.addUnresolved v =
    { q with unresolvedFrames := q.unresolvedFrames + if v.isNone then 1 else 0 } := by
  rw [addUnresolved]
  split <;> rfl

theorem take_revisedFrames (q : FieldQuality) (st : FieldStep) (frames : Nat) :
    (q.take st frames).revisedFrames = q.revisedFrames + frames := by
  rw [take, addUnresolved_eq]
  cases st.outcome <;> rfl

theorem take_suspectExpired (q : FieldQuality) (st : FieldStep) (frames : Nat) :
    (q.take st frames).suspectExpired =
      q.suspectExpired + Discard.count .suspectExpired st.discarded := by
  rw [take, addUnresolved_eq]
  cases st.outcome <;> rfl

theorem take_suspectSuperseded (q : FieldQuality) (st : FieldStep) (frames : Nat) :
    (q.take st frames).suspectSuperseded =
      q.suspectSuperseded + Discard.count .suspectSuperseded st.discarded := by
  rw [take, addUnresolved_eq]
  cases st.outcome <;> rfl

theorem take_suspect (q : FieldQuality) (st : FieldStep) (frames : Nat) :
    (q.take st frames).suspect = q.suspect + if st.outcome = .suspect then 1 else 0 := by
  rw [take, addUnresolved_eq]
  cases st.outcome <;> rfl

theorem take_held (q : FieldQuality) (st : FieldStep) (frames : Nat) :
    (q.take st frames).held = q.held + if st.outcome = .absent then 1 else 0 := by
  rw [take, addUnresolved_eq]
  cases st.outcome <;> rfl

theorem take_taken (q : FieldQuality) (st : FieldStep) (frames : Nat) :
    (q.take st frames).accepted + (q.take st frames).confirmed =
      q.accepted + q.confirmed + if st.outcome.isAccepted then 1 else 0 := by
  rw [take, addUnresolved_eq]
  cases st.outcome <;> simp [addOutcome, addRevised, discard, Outcome.isAccepted] <;> omega

theorem take_outcomes (q : FieldQuality) (frames : Nat)
    (h : Discard.count .lowConfidence st.discarded =
      if st.outcome = .lowConfidence then 1 else 0) :
    (q.take st frames).outcomes = q.outcomes + 1 := by
  rw [take, addUnresolved_eq]
  cases ho : st.outcome <;> simp [ho] at h <;>
    simp [addOutcome, addRevised, discard, outcomes, h] <;> omega

end FieldQuality

namespace Track

variable {m : FieldModel} {past : List (Observation × FieldStep)} {t : Track} {o : Observation}
  {e : Observation × FieldStep} {x : (Observation × FieldStep) × Cell} {c : FieldValue}

theorem count_staleDiscards (t : Track) (o : Observation) (reason : DiscardReason) :
    Discard.count reason (t.staleDiscards o) =
      if reason = .suspectExpired then (t.current.stale t.model.window o.seq).length else 0 := by
  rw [staleDiscards, Discard.count_ofPending]
  simp only [eq_comm]

structure Books (m : FieldModel) (t : Track) (o : Observation) (b : Belief) (st : FieldStep) :
    Prop where
  absent : st.outcome = .absent ↔ o.reading = none
  value : st.outcome.isAccepted = true → ∃ c, st.value = some c
  faint : Discard.count .lowConfidence st.discarded = if st.outcome = .lowConfidence then 1 else 0
  expired : Discard.count .suspectExpired st.discarded + b.pending.length =
    t.current.pending.length
  superseded : Discard.count .suspectSuperseded st.discarded =
    if st.outcome.isAccepted then b.pending.countP (some ·.value ≠ st.value) else 0

theorem Run.books (hm : m.validate = .ok ()) (h : Run m past t) (hseq : o.seq = past.length + 1) :
    Books m t o (t.current.expire m.window o.seq) (t.step o).2 := by
  obtain ⟨st, hresolves, hst⟩ := h.resolves hm hseq
  have hsettles := hresolves.settles
  have hsplit := congrArg List.length (t.current.stale_append_expire m.window o.seq)
  rw [List.length_append] at hsplit
  have hmodel := (h.explained hm).model
  rw [hst]
  refine ⟨hsettles.absent, hsettles.value, ?_, ?_, ?_⟩
  · rw [Discard.count_append, count_staleDiscards, if_neg (by decide), Nat.zero_add]
    exact hsettles.faint
  · rw [Discard.count_append, count_staleDiscards, if_pos rfl, hsettles.expired, hmodel]
    exact hsplit
  · rw [Discard.count_append, count_staleDiscards, if_neg (by decide), Nat.zero_add]
    exact hsettles.superseded

theorem Run.pending_step (hm : m.validate = .ok ()) (h : Run m past t)
    (hseq : o.seq = past.length + 1) :
    (t.step o).1.current.pending.length =
      if (t.step o).2.outcome.isAccepted then 0
      else (t.current.expire m.window o.seq).pending.length +
        if (t.step o).2.outcome = .suspect then 1 else 0 := by
  obtain ⟨st, hresolves, hst⟩ := h.resolves hm hseq
  rw [hst]
  generalize (t.step o).1.current = b' at hresolves
  cases hresolves with
  | absent _ => rfl
  | faint _ _ => rfl
  | stray _ _ _ => rfl
  | refused _ _ => rfl
  | joined _ _ => simp [FieldStep.held, Outcome.isAccepted]
  | accepted _ _ => rfl
  | confirmed _ _ => rfl

theorem Run.revise_cases (hm : m.validate = .ok ()) (h : Run m past t)
    (hseq : o.seq = past.length + 1) (hprev : o.previousFrame = past.head?.map (·.1.frame))
    (hhead : ∀ e ∈ past.head?, e.1.frame < o.frame) (hx : x ∈ finals past) :
    ((t.step o).2.touches x.1.1.frame = false ∧ x.2.revise (t.step o).2 = x.2) ∨
      (t.step o).2.touches x.1.1.frame = true ∧ x.2.tag = some .held ∧
        x.2.revise (t.step o).2 = ⟨x.2.frame, (t.step o).2.value, some .revised⟩ := by
  have hframe := frame_of_mem_finals hx
  cases htouched : (t.step o).2.touches x.1.1.frame with
  | false => exact .inl ⟨rfl, Cell.revise_of_not_touched (hframe ▸ htouched)⟩
  | true =>
      right
      obtain ⟨v, a, -, hlt, hsince⟩ := h.touched_since hm hseq hprev hhead hx htouched
      refine ⟨rfl, hsince.held hlt, ?_⟩
      rcases h.revision hm hseq hprev hhead with
        ⟨-, hnone⟩ | ⟨c, -, hvalue, -, ⟨rev, hrev, hover⟩ | ⟨hnone, -⟩⟩
      · simp [FieldStep.touches, hnone] at htouched
      · rw [Cell.revise_of_touched hrev (hframe ▸ htouched), hvalue, hover.value]
      · simp [FieldStep.touches, hnone] at htouched

theorem Run.fresh_of_later (h : Run m past t) {p q : Pending} {window seq : Nat}
    (hp : p ∈ suspects m past) (hq : q ∈ suspects m past) (hle : p.frame ≤ q.frame)
    (hfresh : Belief.isStale window seq p = false) : Belief.isStale window seq q = false := by
  have hcount := countP_since_suspect h.frames hp
  have hcount' := countP_since_suspect h.frames hq
  have hmono : past.countP (q.frame ≤ ·.1.frame) ≤ past.countP (p.frame ≤ ·.1.frame) := by
    refine List.countP_mono_left fun e _ he => ?_
    rw [decide_eq_true_eq] at he ⊢
    omega
  simp only [Belief.isStale, decide_eq_false_iff_not] at hfresh ⊢
  omega

theorem Run.countP_bearing (hm : m.validate = .ok ()) (h : Run m past t)
    (hseq : o.seq = past.length + 1) (hprev : o.previousFrame = past.head?.map (·.1.frame))
    (hhead : ∀ e ∈ past.head?, e.1.frame < o.frame) (hc : (t.step o).2.value = some c)
    (hacc : (t.step o).2.outcome.isAccepted = true) :
    past.countP (fun e => (t.step o).2.touches e.1.frame && bears m c e) =
      Belief.votes (t.current.expire m.window o.seq).pending c := by
  rcases h.revision hm hseq hprev hhead with
    ⟨hnot, -⟩ | ⟨c', -, hvalue, -, ⟨rev, hrev, hover⟩ | ⟨hnone, hother⟩⟩
  · cases hnot.symm.trans hacc
  · obtain rfl := Option.some.inj (hvalue.symm.trans hc)
    have hex := h.explained hm
    have hpending := hex.expired
    rw [← hseq] at hpending
    obtain ⟨p, hp, hfirst⟩ := hover.first
    rw [hpending] at hp
    obtain ⟨hp, hfresh⟩ := List.mem_filter.mp hp
    have hsince : past.countP (fun e => (t.step o).2.touches e.1.frame && bears m c' e) =
        past.countP fun e => rev.first ≤ e.1.frame && bears m c' e := by
      refine List.countP_congr fun e he => ?_
      simp only [Bool.and_eq_true, decide_eq_true_eq, hover.touches_iff h hrev he]
    rw [hsince, ← countP_suspects_since h.frames
      (hfirst ▸ accepted_before_suspect h.frames hp) c', Belief.votes, hpending,
      List.countP_filter]
    refine List.countP_congr fun q hq => ?_
    simp only [Bool.and_eq_true, decide_eq_true_eq, Bool.not_eq_true']
    constructor
    · rintro ⟨hle, rfl⟩
      exact ⟨rfl, h.fresh_of_later hp hq (hfirst ▸ hle) (by simpa using hfresh)⟩
    · rintro ⟨rfl, hq'⟩
      refine ⟨hover.least q ?_ rfl, rfl⟩
      rw [hpending]
      exact List.mem_filter.mpr ⟨hq, by simp [hq']⟩
  · obtain rfl := Option.some.inj (hvalue.symm.trans hc)
    have hvotes : Belief.votes (t.current.expire m.window o.seq).pending c' = 0 :=
      List.countP_eq_zero.mpr fun q hq => by simpa using hother q hq
    rw [hvotes]
    refine List.countP_eq_zero.mpr fun e _ => ?_
    simp [FieldStep.touches, hnone]

def restored (m : FieldModel) (x : (Observation × FieldStep) × Cell) : Bool :=
  x.1.2.outcome = .suspect && x.2.tag = some .revised &&
    x.2.value = m.shown x.1.1.reading x.1.1.confidence

theorem firstCell_tag (hvalue : e.2.outcome.isAccepted = true → ∃ c, e.2.value = some c) :
    decide ((firstCell e).tag = some .observed) = e.2.outcome.isAccepted ∧
      (firstCell e).tag ≠ some .revised := by
  cases hacc : e.2.outcome.isAccepted with
  | true =>
      obtain ⟨c, hc⟩ := hvalue hacc
      simp [firstCell, FieldStep.provenance, hc, hacc]
  | false => cases hc : e.2.value <;> simp [firstCell, FieldStep.provenance, hc, hacc]

section Step

variable (hm : m.validate = .ok ()) (h : Run m past t) (hseq : o.seq = past.length + 1)
  (hprev : o.previousFrame = past.head?.map (·.1.frame))
  (hhead : ∀ e ∈ past.head?, e.1.frame < o.frame)
include hm h hseq hprev hhead

theorem Run.countP_observed :
    (finals past).countP (fun x => (x.2.revise (t.step o).2).tag = some .observed) =
      (finals past).countP (·.2.tag = some .observed) := by
  refine List.countP_congr fun x hx => ?_
  rcases h.revise_cases hm hseq hprev hhead hx with ⟨-, hsame⟩ | ⟨-, hheld, hnew⟩
  · rw [hsame]
  · simp [hnew, hheld]

theorem Run.countP_revised :
    (finals past).countP (fun x => (x.2.revise (t.step o).2).tag = some .revised) =
      (finals past).countP (·.2.tag = some .revised) +
        past.countP ((t.step o).2.touches ·.1.frame) := by
  rw [← countP_finals fun e => (t.step o).2.touches e.1.frame]
  refine countP_eq_add fun x hx => ?_
  rcases h.revise_cases hm hseq hprev hhead hx with ⟨hnot, hsame⟩ | ⟨htouched, hheld, hnew⟩
  · simp [hsame, hnot]
  · simp [hnew, hheld, htouched]

theorem Run.countP_restored :
    (finals past).countP (fun x => restored m (x.1, x.2.revise (t.step o).2)) =
      (finals past).countP (restored m) +
        if (t.step o).2.outcome.isAccepted then
          (t.current.expire m.window o.seq).pending.countP (some ·.value = (t.step o).2.value)
        else 0 := by
  cases hacc : (t.step o).2.outcome.isAccepted with
  | false =>
      have hnone : (t.step o).2.revision = none := by
        rcases h.revision hm hseq hprev hhead with ⟨-, hnone⟩ | ⟨c, hyes, -⟩
        · exact hnone
        · cases hacc.symm.trans hyes
      simp [Cell.revise_of_none hnone]
  | true =>
      obtain ⟨c, hc⟩ := (h.books hm hseq).value hacc
      have hvotes := h.countP_bearing hm hseq hprev hhead hc hacc
      have hpending : (t.current.expire m.window o.seq).pending.countP
          (some ·.value = (t.step o).2.value) =
            Belief.votes (t.current.expire m.window o.seq).pending c := by
        rw [hc]
        exact List.countP_congr fun p _ => by simp
      rw [if_pos rfl, hpending, ← hvotes, ← countP_finals]
      refine countP_eq_add fun x hx => ?_
      rcases h.revise_cases hm hseq hprev hhead hx with ⟨hnot, hsame⟩ | ⟨htouched, hheld, hnew⟩
      · simp [hsame, hnot]
      · simp [restored, bears, hnew, hheld, htouched, hc, @eq_comm _ (some c)]

end Step

structure Ledger (m : FieldModel) (past : List (Observation × FieldStep)) (t : Track) : Prop where
  outcomes : (tally past).outcomes = past.length
  readings : (tally past).held + past.countP (·.1.reading.isSome) = past.length
  observed : (tally past).accepted + (tally past).confirmed =
    (finals past).countP (·.2.tag = some .observed)
  revised : (tally past).revisedFrames = (finals past).countP (·.2.tag = some .revised)
  suspects : (tally past).suspect = (tally past).suspectExpired +
    (tally past).suspectSuperseded + t.current.pending.length + (finals past).countP (restored m)

section Step

variable (hledger : Ledger m past t) (hm : m.validate = .ok ()) (h : Run m past t)
  (hseq : o.seq = past.length + 1)
include hledger hm h hseq

theorem Ledger.step_readings :
    (tally ((o, (t.step o).2) :: past)).held +
        ((o, (t.step o).2) :: past).countP (·.1.reading.isSome) =
      ((o, (t.step o).2) :: past).length := by
  have hbooks := h.books hm hseq
  rw [tally, FieldQuality.take_held, List.countP_cons, List.length_cons, ← hledger.readings]
  cases hr : o.reading with
  | none =>
      rw [if_pos (hbooks.absent.mpr hr)]
      simp
      omega
  | some v =>
      have hnot : (t.step o).2.outcome ≠ .absent := fun ha => by
        cases hr.symm.trans (hbooks.absent.mp ha)
      simp [hnot]
      omega

variable (hprev : o.previousFrame = past.head?.map (·.1.frame))
  (hhead : ∀ e ∈ past.head?, e.1.frame < o.frame)
include hprev hhead

theorem Ledger.step_suspects :
    (tally ((o, (t.step o).2) :: past)).suspect =
      (tally ((o, (t.step o).2) :: past)).suspectExpired +
        (tally ((o, (t.step o).2) :: past)).suspectSuperseded +
        (t.step o).1.current.pending.length +
        (finals ((o, (t.step o).2) :: past)).countP (restored m) := by
  have hbooks := h.books hm hseq
  have hcount := h.countP_restored hm hseq hprev hhead
  have hnew : restored m ((o, (t.step o).2), firstCell (o, (t.step o).2)) = false := by
    simp [restored, (firstCell_tag (e := (o, (t.step o).2)) hbooks.value).2]
  have hexpired := hbooks.expired
  have hsuperseded := hbooks.superseded
  have hpending := h.pending_step hm hseq
  have hmap : (finals ((o, (t.step o).2) :: past)).countP (restored m) =
      (finals past).countP fun x => restored m (x.1, x.2.revise (t.step o).2) := by
    rw [finals, List.countP_cons, List.countP_map, hnew]
    rfl
  rw [hmap, hcount, hpending, tally, FieldQuality.take_suspect, FieldQuality.take_suspectExpired,
    FieldQuality.take_suspectSuperseded, hledger.suspects, hsuperseded]
  cases hacc : (t.step o).2.outcome.isAccepted with
  | false =>
      simp
      omega
  | true =>
      -- all that waited is settled now, as superseded or by the revision
      have hnot : (t.step o).2.outcome ≠ .suspect := by
        intro hs
        rw [hs] at hacc
        cases hacc
      have hsplit := List.length_eq_countP_add_countP
        (fun p : Pending => decide (some p.value = (t.step o).2.value))
        (l := (t.current.expire m.window o.seq).pending)
      simp [hnot] at hsplit ⊢
      omega

theorem Ledger.step : Ledger m ((o, (t.step o).2) :: past) (t.step o).1 := by
  have hbooks := h.books hm hseq
  obtain ⟨hobserved, hunrevised⟩ := firstCell_tag (e := (o, (t.step o).2)) hbooks.value
  refine ⟨?_, hledger.step_readings hm h hseq, ?_, ?_,
    hledger.step_suspects hm h hseq hprev hhead⟩
  · rw [tally, FieldQuality.take_outcomes _ _ hbooks.faint, hledger.outcomes, List.length_cons]
  · have hcount := h.countP_observed hm hseq hprev hhead
    rw [tally, FieldQuality.take_taken, hledger.observed, finals, List.countP_cons,
      List.countP_map, hobserved]
    exact congrArg (· + _) hcount.symm
  · have hcount := h.countP_revised hm hseq hprev hhead
    rw [tally, FieldQuality.take_revisedFrames, hledger.revised, finals, List.countP_cons,
      List.countP_map, if_neg (by simpa using hunrevised)]
    exact hcount.symm

end Step

theorem Run.ledger (hm : m.validate = .ok ()) (h : Run m past t) : Ledger m past t := by
  induction h with
  | start => exact ⟨rfl, rfl, rfl, rfl, rfl⟩
  | step hrun hseq hprev hhead ih => exact ih.step hm hrun hseq hprev hhead

end Track

end GameTimeline
