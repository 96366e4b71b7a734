import GameTimeline.Proofs.Timeline.Conservation

namespace GameTimeline

theorem FieldQuality.isClean_iff {q : FieldQuality} :
    q.isClean = true ↔ q.rejected = 0 ∧ q.suspectExpired = 0 ∧ q.suspectSuperseded = 0 ∧
      q.lowConfidence = 0 ∧ q.suspect = 0 ∧ q.revisedFrames = 0 := by
  simp [isClean, discarded, and_assoc]

namespace Track

variable {m : FieldModel} {past : List (Observation × FieldStep)} {t : Track} {o : Observation}
  {st : FieldStep} {b b' : Belief} {c : FieldValue}

theorem Resolves.taken (h : Resolves m o b b' st) (ha : st.outcome.isAccepted = true) :
    ∃ c, m.shown o.reading o.confidence = some c ∧ st.value = some c := by
  cases h with
  | accepted hs _ => exact ⟨_, hs, rfl⟩
  | confirmed hs _ => exact ⟨_, hs, rfl⟩
  | absent _ => cases ha
  | faint _ _ => cases ha
  | stray _ _ _ => cases ha
  | refused _ _ => cases ha
  | joined _ _ => cases ha

theorem Run.finals_observed (hm : m.validate = .ok ()) (h : Run m past t) :
    ∀ x ∈ finals past, x.2.tag = some .observed → ∃ raw c, x.1.1.reading = some raw ∧
      m.normalize raw = some c ∧ x.2.value = some c := by
  induction h with
  | start => exact fun _ hx => nomatch hx
  | @step past t o hrun hseq hprev hhead ih =>
      intro x hx htag
      rcases List.mem_cons.mp hx with rfl | hx
      · have hacc := (firstCell_tag (e := (o, (t.step o).2)) (hrun.books hm hseq).value).1
        rw [decide_eq_true htag] at hacc
        obtain ⟨st, hresolves, hst⟩ := hrun.resolves hm hseq
        rw [hst] at hacc
        obtain ⟨c, hshown, hvalue⟩ := hresolves.taken hacc.symm
        obtain ⟨-, raw, hraw, hnorm⟩ := FieldModel.shown_eq_some_iff.mp hshown
        exact ⟨raw, c, hraw, hnorm, by rw [firstCell, hst]; exact hvalue⟩
      · obtain ⟨y, hy, rfl⟩ := List.mem_map.mp hx
        rcases hrun.revise_cases hm hseq hprev hhead hy with ⟨-, hsame⟩ | ⟨-, -, hnew⟩
        · rw [hsame] at htag ⊢
          exact ih y hy htag
        · rw [hnew] at htag
          cases htag

theorem Run.revised_of_suspects (hm : m.validate = .ok ()) (h : Run m past t)
    (hnone : (tally past).suspect = 0) : (tally past).revisedFrames = 0 := by
  induction h with
  | start => rfl
  | @step past t o hrun hseq hprev hhead ih =>
      rw [tally, FieldQuality.take_suspect] at hnone
      have hold : (tally past).suspect = 0 := by omega
      have hpending : t.current.pending = [] := by
        have hsuspects := (hrun.ledger hm).suspects
        exact List.length_eq_zero_iff.mp (by omega)
      have hrevision : (t.step o).2.revision = none := by
        rcases hrun.revision hm hseq hprev hhead with
          ⟨-, hrev⟩ | ⟨c, -, -, -, ⟨rev, -, hover⟩ | ⟨hrev, -⟩⟩
        · exact hrev
        · obtain ⟨p, hp, -⟩ := hover.first
          have hp' := Belief.expire_subset _ _ _ hp
          rw [hpending] at hp'
          cases hp'
        · exact hrev
      have htouched : past.countP ((t.step o).2.touches ·.1.frame) = 0 :=
        List.countP_eq_zero.mpr fun e _ => by simp [FieldStep.touches, hrevision]
      rw [tally, FieldQuality.take_revisedFrames, htouched, ih hold]

theorem Run.isClean_iff (hm : m.validate = .ok ()) (h : Run m past t) (ignored : Nat) :
    (((tally past).expire t.current.pending.length).ignore ignored).isClean = true ↔
      ∀ x ∈ finals past, x.1.1.reading.isSome = true → x.2.tag = some .observed := by
  have hledger := h.ledger hm
  have houtcomes := hledger.outcomes
  have hreadings := hledger.readings
  have hobserved := hledger.observed
  have hsuspects := hledger.suspects
  have hcount := countP_finals (·.1.reading.isSome) past
  rw [FieldQuality.outcomes] at houtcomes
  have hseen : ∀ x ∈ finals past, decide (x.2.tag = some .observed) = true →
      x.1.1.reading.isSome = true := by
    intro x hx htag
    obtain ⟨raw, -, hraw, -⟩ := h.finals_observed hm x hx (of_decide_eq_true htag)
    rw [hraw]
    rfl
  rw [FieldQuality.isClean_iff]
  simp only [FieldQuality.ignore, FieldQuality.expire]
  constructor
  · rintro ⟨hrejected, -, -, hfaint, hsuspect, -⟩ x hx hread
    have hsame : (finals past).countP (·.2.tag = some .observed) =
        (finals past).countP (·.1.1.reading.isSome) := by omega
    exact of_decide_eq_true (forall_of_countP_eq hseen hsame x hx hread)
  · intro hall
    have hsame : (finals past).countP (·.2.tag = some .observed) =
        (finals past).countP (·.1.1.reading.isSome) :=
      List.countP_congr fun x hx => ⟨hseen x hx, fun hread => decide_eq_true (hall x hx hread)⟩
    have hrevised := h.revised_of_suspects hm
    refine ⟨?_, ?_, ?_, ?_, ?_, hrevised ?_⟩ <;> omega

end Track

def Timeline.Takes (t : Timeline) (m : FieldModel) (n : String) (f : RawFrame) : Prop :=
  ∀ raw, f.reading n = some raw → ∃ v, m.normalize raw = some v ∧
    ∃ x ∈ t.toList, x.frame = f.frame ∧ x.Shows n .observed (some v)

namespace TimelineBuilder.Assembled

variable {s : ModelSet} {frames rest : List RawFrame} {past : List (RawFrame × StepReport)}
  {r : Reconciler} {t : Timeline} {quality : QualityReport} {n : String} {m : FieldModel}
  {hist : List (Observation × FieldStep)} {track : Track} {q : FieldQuality} {f : RawFrame}

theorem played_iff (h : Assembled s frames past r rest t quality)
    (hord : frames.Pairwise (·.frame < ·.frame)) :
    f ∈ frames ∧ quality.plays f.frame = true ↔ ∃ e ∈ past, e.1 = f := by
  have hmem : f ∈ frames.filter (quality.plays ·.frame) ↔ f ∈ (past.map (·.1)).reverse := by
    rw [(h.filter_plays hord).1]
  simpa using hmem

theorem takes_iff (h : Assembled s frames past r rest t quality)
    (hshare : List.Forall₂ (Reconciler.Share n) past hist) (hm : m.validate = .ok ())
    (hfield : Track.Run m hist track) {e : RawFrame × StepReport}
    {x : (Observation × FieldStep) × Cell} (hx : x ∈ Track.finals hist)
    (hs : Reconciler.Share n e x.1) :
    t.Takes m n e.1 ↔ (x.1.1.reading.isSome = true → x.2.tag = some .observed) := by
  have hframe : x.2.frame = e.1.frame := (Track.frame_of_mem_finals hx).trans hs.frame
  rw [hs.reading]
  constructor
  · intro htakes hread
    obtain ⟨raw, hraw⟩ := Option.isSome_iff_exists.mp hread
    obtain ⟨v, -, hy⟩ := htakes raw hraw
    obtain ⟨z, hz, hcell⟩ := (h.exists_shows_iff hshare (by decide)).mp hy
    obtain rfl := hfield.final_unique hz hx (by rw [hcell, hframe])
    rw [hcell]
  · intro htag raw hraw
    have htag := htag (by rw [hraw]; rfl)
    obtain ⟨raw', c, hraw', hnorm, hvalue⟩ := hfield.finals_observed hm x hx htag
    rw [hs.reading, hraw] at hraw'
    obtain rfl := Option.some.inj hraw'
    exact ⟨c, hnorm, (h.exists_shows_iff hshare (by decide)).mpr
      ⟨x, hx, by rw [← hframe, ← hvalue, ← htag]⟩⟩

theorem field_isClean_iff (h : Assembled s frames past r rest t quality) (hm : s.get? n = some m)
    (hq : quality.fields.get? n = some q) : q.isClean = true ↔ ∀ e ∈ past, t.Takes m n e.1 := by
  have hvalid := ModelSet.validate_of_get? hm
  obtain ⟨track, hist, ht, hfield, hshare⟩ := h.run.field hm
  have hpairs := Reconciler.finals_share hshare
  rw [h.field n m track hist hm ht hshare] at hq
  obtain rfl := Option.some.inj hq
  rw [hfield.isClean_iff hvalid]
  constructor
  · intro hall e he
    obtain ⟨x, -, hx, hs⟩ := exists_of_forall₂ hpairs he
    exact (h.takes_iff hshare hvalid hfield hx hs).mpr (hall x hx)
  · intro hall x hx
    obtain ⟨e, he, -, hs⟩ := exists_of_forall₂ hpairs.flip hx
    exact (h.takes_iff hshare hvalid hfield hx hs).mp (hall e he)

theorem field_ignored_iff (h : Assembled s frames past r rest t quality) (hm : s.get? n = some m)
    (hq : quality.fields.get? n = some q) :
    q.ignoredAfterFreeze = 0 ↔ ∀ f ∈ rest, f.reading n = none := by
  obtain ⟨q', hq', haccounts⟩ := h.accounts hm
  obtain rfl := Option.some.inj (hq.symm.trans hq')
  rw [haccounts.ignored, List.countP_eq_zero]
  simp

theorem forall_values_iff (h : Assembled s frames past r rest t quality) {P : FieldQuality → Prop}
    {Q : String → FieldModel → Prop}
    (hfield : ∀ n m q, s.get? n = some m → quality.fields.get? n = some q → (P q ↔ Q n m)) :
    (∀ q ∈ quality.fields.values, P q) ↔ ∀ n m, s.get? n = some m → Q n m := by
  have hkeys : ∀ n, (∃ q, quality.fields.get? n = some q) ↔ ∃ m, s.get? n = some m := by
    intro n
    rw [← Table.mem_keys_iff, h.names, ModelSet.mem_names_iff]
  constructor
  · intro hall n m hm
    obtain ⟨q, hq⟩ := (hkeys n).mpr ⟨m, hm⟩
    exact (hfield n m q hm hq).mp (hall q (Table.mem_values_iff.mpr ⟨n, hq⟩))
  · intro hall q hq
    obtain ⟨n, hq⟩ := Table.mem_values_iff.mp hq
    obtain ⟨m, hm⟩ := (hkeys n).mp ⟨q, hq⟩
    exact (hfield n m q hm hq).mpr (hall n m hm)

theorem takes_after_iff (h : Assembled s frames past r rest t quality)
    (hord : frames.Pairwise (·.frame < ·.frame)) (hm : s.get? n = some m) (hf : f ∈ rest) :
    t.Takes m n f ↔ f.reading n = none := by
  obtain ⟨track, hist, ht, hfield, hshare⟩ := h.run.field hm
  constructor
  · intro htakes
    by_contra hread
    obtain ⟨raw, hraw⟩ := Option.ne_none_iff_exists'.mp hread
    obtain ⟨v, -, hy⟩ := htakes raw hraw
    obtain ⟨x, hx, hcell⟩ := (h.exists_shows_iff hshare (by decide)).mp hy
    obtain ⟨e, he, -, hs⟩ := exists_of_forall₂ (Reconciler.finals_share hshare).flip hx
    have hframe : e.1.frame = f.frame := by
      rw [← hs.frame, ← Track.frame_of_mem_finals hx, hcell]
    have hplays := h.plays_of_mem he
    rw [hframe, h.not_plays_of_mem hord hf] at hplays
    cases hplays
  · intro hread raw hraw
    cases hread.symm.trans hraw

end TimelineBuilder.Assembled

theorem assemble_clean {s : ModelSet} {frames : List RawFrame} {t : Timeline}
    {quality : QualityReport} (h : assemble s frames = .ok (t, quality)) :
    (quality.isClean = true ↔ ∀ n m, s.get? n = some m →
      ∀ f ∈ frames, quality.plays f.frame = true → t.Takes m n f) ∧
    ((quality.isClean = true ∧ ∀ q ∈ quality.fields.values, q.ignoredAfterFreeze = 0) ↔
      ∀ n m, s.get? n = some m → ∀ f ∈ frames, t.Takes m n f) := by
  have hord := (assemble_ok_iff_admissible.mp ⟨t, quality, h⟩).ordered
  obtain ⟨past, r, rest, hall⟩ := TimelineBuilder.assembled h
  have hrest := (hall.filter_plays hord).2
  have hclean : quality.isClean = true ↔
      ∀ n m, s.get? n = some m → ∀ e ∈ past, t.Takes m n e.1 := by
    rw [QualityReport.isClean, List.all_eq_true]
    exact hall.forall_values_iff fun n m q hm hq => hall.field_isClean_iff hm hq
  have hignored := hall.forall_values_iff fun n m q hm hq => hall.field_ignored_iff hm hq
  have hgame : quality.isClean = true ↔ ∀ n m, s.get? n = some m →
      ∀ f ∈ frames, quality.plays f.frame = true → t.Takes m n f := by
    rw [hclean]
    constructor
    · intro hpast n m hm f hf hplay
      obtain ⟨e, he, rfl⟩ := (hall.played_iff hord).mp ⟨hf, hplay⟩
      exact hpast n m hm e he
    · intro hframes n m hm e he
      obtain ⟨hmem, hplay⟩ := (hall.played_iff hord).mpr ⟨e, he, rfl⟩
      exact hframes n m hm e.1 hmem hplay
  refine ⟨hgame, ?_⟩
  rw [hgame, hignored]
  constructor
  · rintro ⟨hplayed, hafter⟩ n m hm f hf
    cases hplay : quality.plays f.frame with
    | true => exact hplayed n m hm f hf hplay
    | false =>
        have hf : f ∈ rest := hrest ▸ List.mem_filter.mpr ⟨hf, by simp [hplay]⟩
        exact (hall.takes_after_iff hord hm hf).mpr (hafter n m hm f hf)
  · intro htakes
    refine ⟨fun n m hm f hf _ => htakes n m hm f hf, fun n m hm f hf => ?_⟩
    have hmem : f ∈ frames := (List.mem_filter.mp (hrest ▸ hf)).1
    exact (hall.takes_after_iff hord hm hf).mp (htakes n m hm f hmem)

theorem assemble_clean_gold : ∃ t quality,
    assemble (.single { FieldModel.counter "gold" with terminal := some (.int 9) } rfl)
        [.showing 0 "gold" 5, .new 1 0, .showing 2 "gold" 9, .new 3 0] = .ok (t, quality) ∧
      quality.isClean = true ∧ (∀ q ∈ quality.fields.values, q.ignoredAfterFreeze = 0) ∧
      t.Takes { FieldModel.counter "gold" with terminal := some (.int 9) } "gold"
        (.showing 2 "gold" 9) := by
  have hrun : ∃ t quality,
      assemble (.single { FieldModel.counter "gold" with terminal := some (.int 9) } rfl)
          [.showing 0 "gold" 5, .new 1 0, .showing 2 "gold" 9, .new 3 0] = .ok (t, quality) ∧
        quality.isClean = true ∧ quality.fields.values.map (·.ignoredAfterFreeze) = [0] :=
    ⟨_, _, rfl, rfl, rfl⟩
  obtain ⟨t, quality, h, hclean, hcounts⟩ := hrun
  have hignored : ∀ q ∈ quality.fields.values, q.ignoredAfterFreeze = 0 := fun q hq => by
    simpa [hcounts] using List.mem_map_of_mem (f := FieldQuality.ignoredAfterFreeze) hq
  obtain ⟨-, hall⟩ := assemble_clean h
  exact ⟨t, quality, h, hclean, hignored, hall.mp ⟨hclean, hignored⟩ _ _ rfl _ (by simp)⟩

/-- The readings after the game do not spoil a clean report, though none of them is in a record. -/
theorem clean_report_unfaithful : ∃ t quality,
    assemble (.single { FieldModel.counter "gold" with terminal := some (.int 9) } rfl)
        [.showing 0 "gold" 5, .showing 1 "gold" 9, .showing 2 "gold" 12] = .ok (t, quality) ∧
      quality.isClean = true ∧
      ¬ ∀ n m, ModelSet.get?
          (.single { FieldModel.counter "gold" with terminal := some (.int 9) } rfl) n = some m →
        ∀ f ∈ [RawFrame.showing 0 "gold" 5, .showing 1 "gold" 9, .showing 2 "gold" 12],
          ∀ raw, f.reading n = some raw →
            ∃ x ∈ t.toList, x.frame = f.frame ∧ x.value n = m.normalize raw := by
  have hrun : ∃ t quality,
      assemble (.single { FieldModel.counter "gold" with terminal := some (.int 9) } rfl)
          [.showing 0 "gold" 5, .showing 1 "gold" 9, .showing 2 "gold" 12] = .ok (t, quality) ∧
        quality.isClean = true ∧ t.toList.map (fun x => (x.frame, x.value "gold")) =
          [(0, some (.int 5)), (1, some (.int 9)), (2, some (.int 9))] :=
    ⟨_, _, rfl, rfl, rfl⟩
  obtain ⟨t, quality, h, hclean, hrecords⟩ := hrun
  refine ⟨t, quality, h, hclean, fun hall => ?_⟩
  obtain ⟨x, hx, hframe, hvalue⟩ := hall "gold" _ rfl (.showing 2 "gold" 12) (by simp) _ rfl
  have hmem : (x.frame, x.value "gold") ∈ t.toList.map fun x => (x.frame, x.value "gold") :=
    List.mem_map_of_mem hx
  rw [hrecords, hframe, hvalue] at hmem
  revert hmem
  decide

end GameTimeline
