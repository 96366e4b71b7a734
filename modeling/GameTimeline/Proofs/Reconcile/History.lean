import GameTimeline.Proofs.Reconcile.Waiting

namespace GameTimeline.Track

inductive Run (m : FieldModel) : List (Observation × FieldStep) → Track → Prop
  | start : Run m [] ⟨m, none⟩
  | step {past : List (Observation × FieldStep)} {t : Track} {o : Observation} :
      Run m past t → o.seq = past.length + 1 → o.previousFrame = past.head?.map (·.1.frame) →
      (∀ e ∈ past.head?, e.1.frame < o.frame) → Run m ((o, (t.step o).2) :: past) (t.step o).1

def suspects (m : FieldModel) : List (Observation × FieldStep) → List Pending
  | [] => []
  | e :: older =>
      if e.2.outcome.isAccepted then []
      else if e.2.outcome = .suspect then
        suspects m older ++
          ((m.shown e.1.reading e.1.confidence).map (⟨e.1.frame, older.length + 1, ·⟩)).toList
      else suspects m older

def lastAccepted : List (Observation × FieldStep) → Option (FieldValue × Nat)
  | [] => none
  | e :: older =>
      if e.2.outcome.isAccepted then e.2.value.map (·, e.1.frame) else lastAccepted older

variable {m : FieldModel} {past : List (Observation × FieldStep)} {t : Track} {o : Observation}
  {e : Observation × FieldStep} {c v : FieldValue}

theorem suspects_cons_accepted (h : e.2.outcome.isAccepted = true) :
    suspects m (e :: past) = [] := by
  simp [suspects, h]

theorem suspects_cons_kept (ha : e.2.outcome.isAccepted = false) (hs : e.2.outcome ≠ .suspect) :
    suspects m (e :: past) = suspects m past := by
  simp [suspects, ha, hs]

theorem suspects_cons_shown (h : e.2.outcome = .suspect) :
    suspects m (e :: past) = suspects m past ++
      ((m.shown e.1.reading e.1.confidence).map
        (Pending.mk e.1.frame (past.length + 1))).toList := by
  simp [suspects, h, Outcome.isAccepted]

theorem suspects_cons_suspect (ho : e.2.outcome = .suspect)
    (hs : m.shown e.1.reading e.1.confidence = some c) :
    suspects m (e :: past) = suspects m past ++ [⟨e.1.frame, past.length + 1, c⟩] := by
  rw [suspects_cons_shown ho, hs]
  rfl

theorem mem_suspects_cons {p : Pending} (hp : p ∈ suspects m (e :: past)) :
    p ∈ suspects m past ∨ p.frame = e.1.frame ∧ p.seq = past.length + 1 := by
  simp only [suspects] at hp
  split at hp
  · cases hp
  · split at hp
    · rcases List.mem_append.mp hp with hold | hnew
      · exact .inl hold
      · obtain ⟨c, -, rfl⟩ := Option.map_eq_some_iff.mp (Option.mem_toList.mp hnew)
        exact .inr ⟨rfl, rfl⟩
    · exact .inl hp

theorem suspects_seq_le {p : Pending} (hp : p ∈ suspects m past) : p.seq ≤ past.length := by
  induction past with
  | nil => cases hp
  | cons e older ih =>
      rw [List.length_cons]
      rcases mem_suspects_cons hp with hold | ⟨-, hseq⟩
      · exact Nat.le_succ_of_le (ih hold)
      · exact Nat.le_of_eq hseq

theorem suspects_seq_ordered : (suspects m past).Pairwise (·.seq < ·.seq) := by
  induction past with
  | nil => exact .nil
  | cons e older ih =>
      simp only [suspects]
      split
      · exact .nil
      · split
        · refine List.pairwise_append.mpr ⟨ih, ?_, ?_⟩
          · cases m.shown e.1.reading e.1.confidence <;> simp
          · intro p hp q hq
            obtain ⟨c, -, rfl⟩ := Option.map_eq_some_iff.mp (Option.mem_toList.mp hq)
            exact Nat.lt_succ_of_le (suspects_seq_le hp)
        · exact ih

structure Explained (m : FieldModel) (past : List (Observation × FieldStep)) (t : Track) :
    Prop where
  model : t.model = m
  accepted : t.current.accepted = lastAccepted past
  pending : t.current.pending =
    (suspects m past).filter (!Belief.isStale m.window past.length ·)
  few : ∀ v, Belief.votes t.current.pending v < m.majority
  member : ∀ v a, t.current.accepted = some (v, a) → m.domain.Member v
  allowed : ∀ p ∈ t.current.pending, m.domain.Member p.value ∧
    ∀ elapsed, m.classify t.current.value p.value elapsed ≠ .reject

namespace Explained

theorem start (hm : m.validate = .ok ()) : Explained m [] ⟨m, none⟩ where
  model := rfl
  accepted := rfl
  pending := rfl
  few _ := FieldModel.majority_pos hm
  member _ _ h := nomatch h
  allowed _ hp := nomatch hp

theorem waiting (h : Explained m past t) : t.current.Waiting m past.length where
  seqs := h.pending ▸ suspects_seq_ordered.filter _
  counted p hp := by
    rw [h.pending] at hp
    exact suspects_seq_le (List.mem_filter.mp hp).1
  few := h.few

theorem expired (h : Explained m past t) :
    (t.current.expire m.window (past.length + 1)).pending =
      (suspects m past).filter (!Belief.isStale m.window (past.length + 1) ·) := by
  rw [Belief.expire_pending h.waiting.seqs, h.pending, List.filter_filter]
  refine List.filter_congr fun p _ => ?_
  -- what is fresh one step later was fresh before
  by_cases hp : Belief.isStale m.window past.length p = true
  · have hlater : Belief.isStale m.window (past.length + 1) p = true := by
      rw [Belief.isStale_iff] at hp ⊢
      omega
    simp [hp, hlater]
  · simp [hp]

theorem moves (h : Explained m past t) (hm : m.validate = .ok ()) (hseq : o.seq = past.length + 1) :
    Moves m o (t.current.expire m.window (past.length + 1)) (t.step o).1.current (t.step o).2 :=
  hseq ▸ Track.moves h.waiting hm h.model (hseq ▸ Nat.lt_succ_self _)

theorem kept (h : Explained m past t) {t' : Track} (hmodel : t'.model = m)
    (hcur : t'.current = t.current.expire m.window (past.length + 1))
    (ha : e.2.outcome.isAccepted = false) (hs : e.2.outcome ≠ .suspect) :
    Explained m (e :: past) t' where
  model := hmodel
  accepted := by rw [hcur, Belief.expire_accepted, h.accepted, lastAccepted, ha]; rfl
  pending := by rw [hcur, h.expired, suspects_cons_kept ha hs, List.length_cons]
  few v := hcur ▸ (h.waiting.expire _).few v
  member := by
    rw [hcur, Belief.expire_accepted]
    exact h.member
  allowed := by
    rw [hcur, Belief.expire_value]
    exact fun p hp => h.allowed p (Belief.expire_subset _ _ _ hp)

theorem moved (hm : m.validate = .ok ()) {t' : Track} (hmodel : t'.model = m)
    (hcur : t'.current = .accept v e.1.frame) (ha : e.2.outcome.isAccepted = true)
    (hv : e.2.value = some v) (hmem : m.domain.Member v) : Explained m (e :: past) t' where
  model := hmodel
  accepted := by rw [hcur, lastAccepted, if_pos ha, hv]; rfl
  pending := by rw [hcur, suspects_cons_accepted ha]; rfl
  few _ := by
    rw [hcur]
    exact FieldModel.majority_pos hm
  member w a hw := by
    rw [hcur] at hw
    cases hw
    exact hmem
  allowed p hp := by
    rw [hcur] at hp
    cases hp

theorem buffered (h : Explained m past t) (hm : m.validate = .ok ()) {t' : Track}
    (hmodel : t'.model = m)
    (hcur : t'.current = (t.current.expire m.window (past.length + 1)).push m.window
      ⟨e.1.frame, past.length + 1, c⟩)
    (ho : e.2.outcome = .suspect) (hs : m.shown e.1.reading e.1.confidence = some c)
    (hc : ∀ elapsed, m.classify t.current.value c elapsed ≠ .reject)
    (hnone : t'.current.majority m.majority = none) : Explained m (e :: past) t' where
  model := hmodel
  accepted := by
    rw [hcur, Belief.push_accepted, Belief.expire_accepted, h.accepted, lastAccepted, ho]
    rfl
  pending := by
    have hfresh : Belief.isStale m.window (past.length + 1) ⟨e.1.frame, past.length + 1, c⟩ =
        false := by
      have := FieldModel.window_pos hm
      simpa [Belief.isStale] using Nat.ne_of_gt this
    rw [hcur, Belief.push_pending (h.waiting.room hm (Nat.lt_succ_self _)), h.expired,
      suspects_cons_suspect ho hs, List.length_cons, List.filter_append, List.filter_singleton,
      hfresh]
    rfl
  few := Belief.votes_lt_of_majority_none (FieldModel.majority_pos hm) hnone
  member := by
    rw [hcur]
    exact h.member
  allowed := by
    rw [hcur, Belief.push_value, Belief.expire_value]
    intro p hp
    rcases Belief.mem_push hp with hold | rfl
    · exact h.allowed p (Belief.expire_subset _ _ _ hold)
    · exact ⟨FieldModel.member_of_shown hs, hc⟩

theorem step (h : Explained m past t) (hm : m.validate = .ok ()) (hseq : o.seq = past.length + 1) :
    Explained m ((o, (t.step o).2) :: past) (t.step o).1 := by
  have hmodel : (t.step o).1.model = m := h.model
  have hmoves := h.moves hm hseq
  generalize hb : (t.step o).1.current = b' at hmoves
  cases hmoves with
  | keeps ha hs _ _ _ => exact h.kept hmodel hb ha hs
  | buffers hs hc hnone ho _ _ =>
      refine h.buffered hm hmodel (hseq ▸ hb) ho hs ?_ (hb ▸ hnone)
      exact FieldModel.classify_ne_reject_of (by rw [← Belief.expire_value, hc]; simp)
  | accepts hs _ ho hv _ =>
      exact moved hm hmodel hb (by rw [ho]; rfl) hv (FieldModel.member_of_shown hs)
  | confirms hs _ _ ho hv _ =>
      exact moved hm hmodel hb (by rw [ho]; rfl) hv (FieldModel.member_of_shown hs)

end Explained

theorem Run.explained (hm : m.validate = .ok ()) (h : Run m past t) : Explained m past t := by
  induction h with
  | start => exact .start hm
  | step _ hseq _ _ ih => exact ih.step hm hseq

end GameTimeline.Track
