import GameTimeline.Proofs.Reconcile.History
import Mathlib.Data.List.Basic

namespace GameTimeline.Track

variable {m : FieldModel} {past : List (Observation × FieldStep)} {t : Track} {o : Observation}
  {v : FieldValue}

def bears (m : FieldModel) (v : FieldValue) (e : Observation × FieldStep) : Bool :=
  e.2.outcome = .suspect && m.shown e.1.reading e.1.confidence = some v

def backing (m : FieldModel) (v : FieldValue) (k : Nat) (past : List (Observation × FieldStep)) :
    Nat :=
  ((past.take k).takeWhile (!·.2.outcome.isAccepted)).countP (bears m v)

theorem suspects_fresh_zero :
    (suspects m past).filter (past.length < ·.seq + 0) = [] := by
  refine List.filter_eq_nil_iff.mpr fun p hp => ?_
  have := suspects_seq_le hp
  simpa using this

theorem suspects_fresh_succ (e : Observation × FieldStep) (k : Nat) :
    (suspects m past).filter ((e :: past).length < ·.seq + (k + 1)) =
      (suspects m past).filter (past.length < ·.seq + k) := by
  refine List.filter_congr fun p _ => ?_
  have hiff : (e :: past).length < p.seq + (k + 1) ↔ past.length < p.seq + k := by
    rw [List.length_cons]
    omega
  exact decide_eq_decide.mpr hiff

theorem votes_option (o? : Option FieldValue) (frame seq : Nat) (v : FieldValue) :
    Belief.votes (o?.map (Pending.mk frame seq)).toList v = if o? = some v then 1 else 0 := by
  cases o? with
  | none => rfl
  | some c =>
      by_cases hc : c = v
      · simp [Belief.votes, hc]
      · simp [Belief.votes, hc]

theorem votes_fresh (m : FieldModel) (past : List (Observation × FieldStep)) (k : Nat)
    (v : FieldValue) :
    Belief.votes ((suspects m past).filter (past.length < ·.seq + k)) v = backing m v k past := by
  induction past generalizing k with
  | nil => simp [suspects, Belief.votes, backing]
  | cons e older ih =>
      cases k with
      | zero => rw [suspects_fresh_zero]; rfl
      | succ k =>
          have hrest := ih k
          rw [backing] at hrest
          rw [backing, List.take_succ_cons, List.takeWhile_cons]
          cases ha : e.2.outcome.isAccepted with
          | true => rw [suspects_cons_accepted ha]; rfl
          | false =>
              by_cases hs : e.2.outcome = .suspect
              · have hnew (p : Pending) (hp : p ∈
                    ((m.shown e.1.reading e.1.confidence).map
                      (Pending.mk e.1.frame (older.length + 1))).toList) :
                    decide ((e :: older).length < p.seq + (k + 1)) = true := by
                  obtain ⟨c, -, rfl⟩ := Option.map_eq_some_iff.mp (Option.mem_toList.mp hp)
                  simp
                rw [suspects_cons_shown hs, List.filter_append, suspects_fresh_succ,
                  List.filter_eq_self.mpr hnew, Belief.votes_append, hrest, votes_option]
                simp [List.countP_cons, bears, hs]
              · rw [suspects_cons_kept ha hs, suspects_fresh_succ, hrest]
                simp [bears, hs]

theorem filter_fresh (m : FieldModel) (past : List (Observation × FieldStep)) (k d : Nat) :
    (suspects m past).filter (!Belief.isStale (k + d) (past.length + d) ·) =
      (suspects m past).filter (past.length < ·.seq + k) := by
  refine List.filter_congr fun p hp => ?_
  have hle := suspects_seq_le hp
  have hiff : k + d ≤ past.length + d - p.seq ↔ ¬ past.length < p.seq + k := by omega
  rw [Belief.isStale, decide_eq_decide.mpr hiff, decide_not, Bool.not_not]

theorem Explained.votes_current (h : Explained m past t) (v : FieldValue) :
    Belief.votes t.current.pending v = backing m v m.window past := by
  rw [h.pending, ← votes_fresh]
  exact congrArg (Belief.votes · v) (filter_fresh m past m.window 0)

theorem Explained.votes_expired (h : Explained m past t) (hm : m.validate = .ok ())
    (v : FieldValue) :
    Belief.votes (t.current.expire m.window (past.length + 1)).pending v =
      backing m v (m.window - 1) past := by
  obtain ⟨k, hk⟩ : ∃ k, m.window = k + 1 := Nat.exists_eq_add_one.mpr (FieldModel.window_pos hm)
  rw [h.expired, hk, filter_fresh, votes_fresh, Nat.add_sub_cancel]

theorem backing_le (m : FieldModel) (v : FieldValue) (past : List (Observation × FieldStep))
    (k : Nat) :
    backing m v k past ≤
      (past.take k).countP fun e => m.shown e.1.reading e.1.confidence = some v := by
  refine (List.takeWhile_sublist _).countP_le.trans (List.countP_mono_left fun e _ he => ?_)
  exact (Bool.and_eq_true_iff.mp he).2

theorem backing_eq {k : Nat} (h : ∀ e ∈ past.take k, e.2.outcome.isAccepted = false) :
    backing m v k past = (past.take k).countP (bears m v) := by
  have hall : ∀ e ∈ past.take k, (!e.2.outcome.isAccepted) = true := fun e he => by simp [h e he]
  rw [backing, List.takeWhile_eq_self_iff.mpr hall]

theorem backing_mono (m : FieldModel) (v : FieldValue) (past : List (Observation × FieldStep))
    {j k : Nat} (h : j ≤ k) : backing m v j past ≤ backing m v k past := by
  rw [← votes_fresh, ← votes_fresh]
  refine Belief.votes_le_of_sublist (List.monotone_filter_right _ fun p => ?_) v
  refine Bool.le_iff_imp.mpr fun hp => decide_eq_true ?_
  exact Nat.lt_of_lt_of_le (of_decide_eq_true hp) (Nat.add_le_add_left h _)

theorem lastAccepted_of_mem {k : Nat} (hex : ∃ e ∈ past.take k, e.2.outcome.isAccepted = true)
    (hv : ∀ e ∈ past.take k, e.2.outcome.isAccepted = true → e.2.value = some v) :
    ∃ a, lastAccepted past = some (v, a) := by
  induction past generalizing k with
  | nil => simp at hex
  | cons e older ih =>
      cases k with
      | zero => simp at hex
      | succ k =>
          rw [List.take_succ_cons] at hex hv
          by_cases ha : e.2.outcome.isAccepted = true
          · exact ⟨e.1.frame, by simp [lastAccepted, ha, hv e (List.mem_cons_self ..) ha]⟩
          · obtain ⟨x, hx, hxa⟩ := hex
            have hx' : x ∈ older.take k :=
              (List.mem_cons.mp hx).resolve_left fun h => ha (h ▸ hxa)
            rw [lastAccepted, if_neg ha]
            exact ih ⟨x, hx', hxa⟩ fun y hy => hv y (List.mem_cons_of_mem _ hy)

theorem frame_of_lastAccepted {a : Nat} (h : lastAccepted past = some (v, a)) :
    ∃ e ∈ past, e.1.frame = a := by
  induction past with
  | nil => cases h
  | cons e older ih =>
      rw [lastAccepted] at h
      split at h
      · obtain ⟨w, -, hw⟩ := Option.map_eq_some_iff.mp h
        exact ⟨e, List.mem_cons_self .., (Prod.mk.inj hw).2⟩
      · obtain ⟨x, hx, hxa⟩ := ih h
        exact ⟨x, List.mem_cons_of_mem _ hx, hxa⟩

theorem Run.outcome_of_shown (hm : m.validate = .ok ()) (h : Run m past t) :
    ∀ e ∈ past, ∀ c, m.shown e.1.reading e.1.confidence = some c →
      e.2.outcome.isAccepted = true ∨ e.2.outcome = .rejected ∨ e.2.outcome = .suspect := by
  induction h with
  | start => exact fun _ he => nomatch he
  | step hrun hseq _ _ ih =>
      intro e he c hc
      rcases List.mem_cons.mp he with rfl | he
      · have hmoves := (hrun.explained hm).moves hm hseq
        generalize (Track.step _ _).1.current = b' at hmoves
        cases hmoves with
        | keeps _ _ hr _ _ => exact .inr (.inl (hr c hc))
        | buffers _ _ _ ho _ _ => exact .inr (.inr ho)
        | accepts _ _ ho _ _ => exact .inl (by rw [ho]; rfl)
        | confirms _ _ _ ho _ _ => exact .inl (by rw [ho]; rfl)
      · exact ih e he c hc

theorem Run.value_of_votes (hm : m.validate = .ok ()) (h : Run m past t) {k : Nat}
    (hk : k ≤ m.window)
    (hmany : m.majority ≤ (past.take k).countP fun e =>
      m.shown e.1.reading e.1.confidence = some v && e.2.outcome ≠ .rejected)
    (hother : ∀ e ∈ past.take k, e.2.outcome.isAccepted = true → e.2.value = some v) :
    t.current.value = some v := by
  have hex := h.explained hm
  by_cases hacc : ∃ e ∈ past.take k, e.2.outcome.isAccepted = true
  · obtain ⟨a, ha⟩ := lastAccepted_of_mem hacc hother
    rw [Belief.value, hex.accepted, ha]
    rfl
  · -- none of the readings was taken up, so all of them still wait, one vote too many
    have hnone : ∀ e ∈ past.take k, e.2.outcome.isAccepted = false := by
      intro e he
      exact Bool.eq_false_iff.mpr fun ha => hacc ⟨e, he, ha⟩
    have hwait : (past.take k).countP (fun e => m.shown e.1.reading e.1.confidence = some v &&
        e.2.outcome ≠ .rejected) ≤ (past.take k).countP (bears m v) := by
      refine List.countP_mono_left fun e he hgood => ?_
      obtain ⟨hs, hr⟩ := Bool.and_eq_true_iff.mp hgood
      have hs' := of_decide_eq_true hs
      rcases h.outcome_of_shown hm e (List.mem_of_mem_take he) v hs' with ha | hrej | hsus
      · exact absurd ha (by simp [hnone e he])
      · exact absurd hrej (of_decide_eq_true hr)
      · simp [bears, hsus, hs']
    have hfew := hex.few v
    rw [hex.votes_current] at hfew
    have hle := backing_mono m v past hk
    rw [backing_eq hnone] at hle
    omega

structure Justified (m : FieldModel) (p c : FieldValue) (elapsed votes : Nat) : Prop where
  rises : ∀ b, m.monotonicity = .nonDecreasing b → m.domain.AtMost p c
  evidence : m.monotonicity.bound? = none ∨
    (∃ d rp rc, m.monotonicity.bound? = some d ∧ m.domain.rank? p = some rp ∧
      m.domain.rank? c = some rc ∧ |rc - rp| ≤ d.toInt * elapsed) ∨
    m.maxGap < elapsed ∨ m.majority ≤ votes

theorem elapsed_eq {b : Belief} {p : FieldValue} {a : Nat} (h : b.accepted = some (p, a))
    (frame : Nat) : b.elapsed frame = frame - a := by
  simp [Belief.elapsed, Belief.acceptedFrame, h]

theorem Explained.justified_of_accept (h : Explained m past t) (hm : m.validate = .ok ())
    {p c : FieldValue} {a : Nat} (hp : t.current.accepted = some (p, a))
    (hmem : m.domain.Member c) {elapsed : Nat} (hc : m.classify (some p) c elapsed = .accept)
    (votes : Nat) : Justified m p c elapsed votes where
  rises b hb := by
    have hnot : m.classify (some p) c elapsed ≠ .reject := by simp [hc]
    exact FieldModel.atMost_of_classify hm hb (h.member p a hp) hmem hnot
  evidence := by
    cases hd : m.monotonicity.bound? with
    | none => exact .inl rfl
    | some d =>
        rcases FieldModel.near_of_classify hm hd (h.member p a hp) hmem hc with hgap | hnear
        · exact .inr (.inr (.inl hgap))
        · obtain ⟨rp, rc, hrp, hrc, hle⟩ := hnear
          exact .inr (.inl ⟨d, rp, rc, rfl, hrp, hrc, hle⟩)

theorem Explained.votes_pushed_le (h : Explained m past t) (hm : m.validate = .ok ())
    {c : FieldValue} (hs : m.shown o.reading o.confidence = some c) (frame seq : Nat)
    (st : FieldStep) :
    Belief.votes ((t.current.expire m.window (past.length + 1)).push m.window
        ⟨frame, seq, c⟩).pending c ≤
      (((o, st) :: past).take m.window).countP
        fun e => m.shown e.1.reading e.1.confidence = some c := by
  obtain ⟨k, hk⟩ : ∃ k, m.window = k + 1 := Nat.exists_eq_add_one.mpr (FieldModel.window_pos hm)
  have hself : Belief.votes [⟨frame, seq, c⟩] c = 1 := Belief.votes_singleton_self ⟨frame, seq, c⟩
  have hold := h.votes_expired hm c
  have hle := backing_le m c past (m.window - 1)
  rw [Belief.push_pending (h.waiting.room hm (Nat.lt_succ_self _)), Belief.votes_append, hself,
    hold]
  rw [hk] at hle ⊢
  rw [List.take_succ_cons, List.countP_cons]
  simpa [hs] using hle

theorem Run.change_justified (hm : m.validate = .ok ()) (h : Run m past t)
    (hseq : o.seq = past.length + 1) {p c : FieldValue} {a g : Nat}
    (hp : t.current.accepted = some (p, a)) (hc : (t.step o).1.current.accepted = some (c, g))
    (hne : c ≠ p) : g = o.frame ∧ m.shown o.reading o.confidence = some c ∧
      Justified m p c (o.frame - a) ((((o, (t.step o).2) :: past).take m.window).countP
        fun e => m.shown e.1.reading e.1.confidence = some c) := by
  have hex := h.explained hm
  have hmoves := hex.moves hm hseq
  have hvalue : (t.current.expire m.window (past.length + 1)).value = some p := by
    rw [Belief.expire_value, Belief.value, hp]
    rfl
  have helapsed : (t.current.expire m.window (past.length + 1)).elapsed o.frame = o.frame - a :=
    elapsed_eq hp o.frame
  have same {b : Belief} (hb : b.accepted = some (p, a)) (hbc : b.accepted = some (c, g)) :
      False :=
    hne (Prod.mk.inj (Option.some.inj (hbc.symm.trans hb))).1
  generalize (t.step o).1.current = b' at hmoves hc
  cases hmoves with
  | keeps _ _ _ _ _ => exact (same hp hc).elim
  | buffers _ _ _ _ _ _ => exact (same hp hc).elim
  | accepts hs hverdict _ _ _ =>
      obtain ⟨rfl, rfl⟩ := Prod.mk.inj (Option.some.inj hc)
      rw [hvalue, helapsed] at hverdict
      exact ⟨rfl, hs, hex.justified_of_accept hm hp (FieldModel.member_of_shown hs) hverdict _⟩
  | confirms hs hverdict hmany _ _ _ =>
      obtain ⟨rfl, rfl⟩ := Prod.mk.inj (Option.some.inj hc)
      rw [hvalue, helapsed] at hverdict
      have hnot : m.classify (some p) _ (o.frame - a) ≠ .reject := ne_of_eq_of_ne hverdict (by simp)
      refine ⟨rfl, hs, ?_, ?_⟩
      · intro b hb
        exact FieldModel.atMost_of_classify hm hb (hex.member p a hp)
          (FieldModel.member_of_shown hs) hnot
      · exact .inr (.inr (.inr (hmany.trans (hex.votes_pushed_le hm hs _ _ _))))

end GameTimeline.Track
