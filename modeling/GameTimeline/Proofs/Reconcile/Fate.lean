import GameTimeline.Proofs.Reconcile.Determinism
import GameTimeline.Proofs.Reconcile.Settlement

namespace GameTimeline.Track

variable {m : FieldModel} {past : List (Observation × FieldStep)} {t : Track} {o : Observation}
  {e : Observation × FieldStep} {b b' : Belief} {st : FieldStep} {g : Nat}

def waiting (m : FieldModel) (past : List (Observation × FieldStep)) : List Pending :=
  (suspects m past).filter (!Belief.isStale m.window (past.length + 1) ·)

def proven (o : Observation) (st : FieldStep) (ps : List Pending) : List Nat :=
  if st.outcome.isAccepted then o.frame :: (ps.filter (some ·.value = st.value)).map (·.frame)
  else []

theorem mem_proven_of_agrees {ps : List Pending} {p : Pending} (ha : st.outcome.isAccepted = true)
    (hp : p ∈ ps) (hagrees : some p.value = st.value) : p.frame ∈ proven o st ps := by
  rw [proven, if_pos ha]
  exact List.mem_cons_of_mem _
    (List.mem_map_of_mem (List.mem_filter.mpr ⟨hp, decide_eq_true hagrees⟩))

def provenIn (m : FieldModel) : List (Observation × FieldStep) → List Nat
  | [] => []
  | e :: older => proven e.1 e.2 (waiting m older) ++ provenIn m older

def lost (past : List (Observation × FieldStep)) (t : Track) : List Discard :=
  past.flatMap (·.2.discarded) ++ t.current.pending.map (.ofPending .suspectExpired)

def readIn (past : List (Observation × FieldStep)) : List Nat :=
  (past.filter (·.1.reading.isSome)).map (·.1.frame)

theorem Run.waiting_eq (hm : m.validate = .ok ()) (h : Run m past t)
    (hseq : o.seq = past.length + 1) :
    (t.current.expire m.window o.seq).pending = waiting m past :=
  hseq ▸ (h.explained hm).expired

theorem frames_ofPending (reason : DiscardReason) (ps : List Pending) :
    (ps.map (Discard.ofPending reason)).map (·.frame) = ps.map (·.frame) := by
  rw [List.map_map]
  rfl

theorem Resolves.fates (h : Resolves m o b b' st) :
    (st.discarded.map (·.frame) ++ proven o st b.pending ++ b'.pending.map (·.frame)).Perm
      ((if o.reading.isSome then [o.frame] else []) ++ b.pending.map (·.frame)) := by
  have read {c : FieldValue} (hs : m.shown o.reading o.confidence = some c) :
      o.reading.isSome = true := by
    obtain ⟨-, raw, hr, -⟩ := FieldModel.shown_eq_some_iff.mp hs
    rw [hr]
    rfl
  -- an acceptance divides what waits into what it proves right and what it supersedes
  have divided {c : FieldValue} {st : FieldStep} (ha : st.outcome.isAccepted = true)
      (hv : st.value = some c) (hd : st.discarded = superseded b.pending c)
      (hs : m.shown o.reading o.confidence = some c) :
      (st.discarded.map (·.frame) ++ proven o st b.pending ++
        (Belief.accept c o.frame).pending.map (·.frame)).Perm
      ((if o.reading.isSome then [o.frame] else []) ++ b.pending.map (·.frame)) := by
    have hperm := (List.filter_append_perm (·.value = c) b.pending).map (·.frame)
    rw [List.map_append] at hperm
    rw [proven, if_pos ha, if_pos (read hs), hd, superseded, frames_ofPending, List.append_assoc]
    refine List.perm_append_comm.trans ?_
    simpa [hv, Belief.accept] using hperm
  cases h with
  | absent hr => simp [FieldStep.held, proven, Outcome.isAccepted, hr]
  | faint hr _ => simp [FieldStep.held, proven, Outcome.isAccepted, hr]
  | stray hr _ _ => simp [FieldStep.held, proven, Outcome.isAccepted, hr]
  | refused hs _ => simp [FieldStep.held, proven, Outcome.isAccepted, read hs]
  | joined hs _ => simp [FieldStep.held, proven, Outcome.isAccepted, read hs]
  | accepted hs _ => exact divided rfl rfl rfl hs
  | confirmed hs _ => exact divided rfl rfl rfl hs

theorem Run.fates (hm : m.validate = .ok ()) (h : Run m past t) :
    ((lost past t).map (·.frame) ++ provenIn m past).Perm (readIn past) := by
  induction h with
  | start => exact .nil
  | @step past t o hrun hseq hprev hhead ih =>
      have hlt : past.length < o.seq := by omega
      have hmodel := (hrun.explained hm).model
      obtain ⟨st, hresolves, hst⟩ := resolves (hrun.standing hm).toWaiting hm hmodel hlt
      have hwaiting := hrun.waiting_eq hm hseq
      have hpending : (t.staleDiscards o).map (·.frame) ++ (waiting m past).map (·.frame) =
          t.current.pending.map (·.frame) := by
        rw [staleDiscards, frames_ofPending, hmodel, ← hwaiting, ← List.map_append,
          Belief.stale_append_expire]
      have hproven : proven o (t.step o).2 (waiting m past) = proven o st (waiting m past) := by
        rw [hst]
        rfl
      have hread : readIn ((o, (t.step o).2) :: past) =
          (if o.reading.isSome then [o.frame] else []) ++ readIn past := by
        cases hr : o.reading <;> simp [readIn, hr]
      have hstep := hresolves.fates
      rw [hwaiting] at hstep
      rw [List.perm_iff_count]
      intro g
      have hold := ih.count_eq g
      have hnew := hstep.count_eq g
      have hbefore := congrArg (List.count g) hpending
      rw [hread, provenIn, hproven, lost, hst]
      simp only [lost, List.flatMap_cons, List.map_append, List.count_append, frames_ofPending]
        at hold hnew hbefore ⊢
      omega

theorem Run.readIn_nodup (h : Run m past t) : (readIn past).Nodup := by
  have hord := List.pairwise_map.mpr (h.frames.filter (·.1.reading.isSome))
  exact hord.imp Nat.ne_of_gt

theorem Run.fates_nodup (hm : m.validate = .ok ()) (h : Run m past t) :
    ((lost past t).map (·.frame) ++ provenIn m past).Nodup :=
  (h.fates hm).nodup_iff.mpr h.readIn_nodup

theorem Run.not_lost_of_proven (hm : m.validate = .ok ()) (h : Run m past t)
    (hg : g ∈ provenIn m past) : ∀ d ∈ lost past t, d.frame ≠ g := by
  rintro d hd rfl
  exact (List.nodup_append.mp (h.fates_nodup hm)).2.2 _ (List.mem_map_of_mem hd) _ hg rfl

theorem Run.lost_once (hm : m.validate = .ok ()) (h : Run m past t) {d d' : Discard}
    (hd : d ∈ lost past t) (hd' : d' ∈ lost past t) (hframe : d.frame = d'.frame) : d = d' :=
  List.inj_on_of_nodup_map (List.nodup_append.mp (h.fates_nodup hm)).1 hd hd' hframe

theorem provenIn_subset (later past : List (Observation × FieldStep)) :
    ∀ g ∈ provenIn m past, g ∈ provenIn m (later ++ past) := by
  induction later with
  | nil => exact fun _ hg => hg
  | cons e later ih => exact fun g hg => List.mem_append_right _ (ih g hg)

theorem Run.agrees_or_superseded (hm : m.validate = .ok ()) (h : Run m (e :: past) t)
    (ha : e.2.outcome.isAccepted = true) {p : Pending} (hp : p ∈ waiting m past) :
    some p.value = e.2.value ∨ .ofPending .suspectSuperseded p ∈ e.2.discarded := by
  obtain ⟨t₀, hrun, hseq, -, -, hst, -⟩ := h.of_cons
  have hlt : past.length < e.1.seq := by omega
  obtain ⟨st, hresolves, hreport⟩ :=
    resolves (hrun.standing hm).toWaiting hm (hrun.explained hm).model hlt
  rw [← hrun.waiting_eq hm hseq] at hp
  rw [← hst, hreport] at ha ⊢
  have divided {c : FieldValue} (hne : p.value ≠ c) :
      Discard.ofPending .suspectSuperseded p ∈
        superseded (t₀.current.expire m.window e.1.seq).pending c :=
    List.mem_map_of_mem (List.mem_filter.mpr ⟨hp, by simpa using hne⟩)
  generalize (t₀.step e.1).1.current = b' at hresolves
  cases hresolves with
  | absent _ => cases ha
  | faint _ _ => cases ha
  | stray _ _ _ => cases ha
  | refused _ _ => cases ha
  | joined _ _ => cases ha
  | @accepted c _ _ =>
      rcases eq_or_ne p.value c with hv | hne
      · exact .inl (congrArg some hv)
      · exact .inr (List.mem_append_right _ (divided hne))
  | @confirmed c _ _ =>
      rcases eq_or_ne p.value c with hv | hne
      · exact .inl (congrArg some hv)
      · exact .inr (List.mem_append_right _ (divided hne))

end GameTimeline.Track
