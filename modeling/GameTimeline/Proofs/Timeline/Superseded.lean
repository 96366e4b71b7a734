import GameTimeline.Proofs.Reconcile.Acceptance
import GameTimeline.Proofs.Timeline.Overreach
import GameTimeline.Proofs.Timeline.Truth

namespace GameTimeline

structure Cell.Parts (apart : Prop) (c c' : Cell) : Prop where
  frame : c'.frame = c.frame
  same : ¬ apart → c' = c
  value : apart → c'.value ≠ c.value
  tag : apart → c.tag = some .revised ∧ c'.tag = some .held

theorem Cell.Parts.of_eq {apart : Prop} {c c' : Cell} (hnot : ¬ apart) (h : c' = c) :
    Cell.Parts apart c c' where
  frame := congrArg Cell.frame h
  same _ := h
  value hover := absurd hover hnot
  tag hover := absurd hover hnot

namespace Track

variable {m : FieldModel} {past past' : List (Observation × FieldStep)} {t t' : Track}
  {o : Observation} {e e' : Observation × FieldStep} {x : (Observation × FieldStep) × Cell}
  {c' : Cell} {drop : Nat → Bool} {g : Nat}

theorem Run.overrules_of_touches (hm : m.validate = .ok ()) (h : Run m past t)
    (hseq : o.seq = past.length + 1) (hprev : o.previousFrame = past.head?.map (·.1.frame))
    (hhead : ∀ e ∈ past.head?, e.1.frame < o.frame) (hg : (t.step o).2.touches g = true) :
    ∃ c rev, (t.step o).2.revision = some rev ∧
      Overrules t past (t.current.expire m.window o.seq) c rev ∧ g ≤ rev.last := by
  rcases h.revision hm hseq hprev hhead with
    ⟨-, hnone⟩ | ⟨c, -, -, -, ⟨rev, hrev, hover⟩ | ⟨hnone, -⟩⟩
  · rw [touches_of_none hnone] at hg
    cases hg
  · rw [touches_of_revision hrev, Revision.covers, Bool.and_eq_true, decide_eq_true_eq,
      decide_eq_true_eq] at hg
    exact ⟨c, rev, hrev, hover, hg.2⟩
  · rw [touches_of_none hnone] at hg
    cases hg

theorem Overreaches.touches (h : Overreaches m e past g) : e.2.touches g = true := by
  obtain ⟨-, rev, hsome, hcovers, -⟩ := h
  exact (touches_of_revision hsome g).trans hcovers

theorem Run.overreached_lt (hm : m.validate = .ok ()) (h : Run m past t)
    (hover : Overreached m past g) : ∃ l, past.head?.map (·.1.frame) = some l ∧ g < l := by
  induction past generalizing t with
  | nil => cases hover
  | cons e past ih =>
      obtain ⟨t₀, hrun, hseq, hprev, hhead, hst, -⟩ := h.of_cons
      refine ⟨e.1.frame, rfl, ?_⟩
      rcases hover with hover | hover
      · obtain ⟨c, rev, -, hrev, hle⟩ :=
          hrun.overrules_of_touches hm hseq hprev hhead (hst ▸ hover.touches)
        obtain ⟨y, hy, hlast⟩ := Option.map_eq_some_iff.mp hrev.last
        have hlt := hhead y hy
        omega
      · obtain ⟨l, hl, hlt⟩ := ih hrun hover
        obtain ⟨y, hy, rfl⟩ := Option.map_eq_some_iff.mp hl
        exact hlt.trans (hhead y hy)

theorem Run.value_overruled (hm : m.validate = .ok ()) (h : Run m past t)
    (hseq : o.seq = past.length + 1) (hprev : o.previousFrame = past.head?.map (·.1.frame))
    (hhead : ∀ e ∈ past.head?, e.1.frame < o.frame) (hx : x ∈ finals past)
    (htouched : (t.step o).2.touches x.1.1.frame = true) : x.2.value ≠ (t.step o).2.value := by
  obtain ⟨v, a, hacc, -, hsince⟩ := h.touched_since hm hseq hprev hhead hx htouched
  obtain ⟨_, rev, hrev, hover, -⟩ := h.overrules_of_touches hm hseq hprev hhead htouched
  obtain ⟨c, g, hc, hmem, -, hsuspect⟩ := h.contested hm hseq hhead hover.last hrev
  rw [hsince.value, hc]
  intro heq
  cases heq
  rw [Belief.value, hacc] at hsuspect
  exact FieldModel.classify_self_ne_suspect hm hmem _ hsuspect

theorem Run.touched_cell (hm : m.validate = .ok ()) (h : Run m (e :: past) t) (hx : x ∈ finals past)
    (hg : e.2.touches x.2.frame = true) : x.2.tag = some .held ∧ x.2.value ≠ e.2.value ∧
      x.2.revise e.2 = ⟨x.2.frame, e.2.value, some .revised⟩ := by
  obtain ⟨t₀, hrun, hseq, hprev, hhead, hst, -⟩ := h.of_cons
  have htouched : (t₀.step e.1).2.touches x.1.1.frame = true := by
    rw [hst, ← frame_of_mem_finals hx, hg]
  have hvalue := hrun.value_overruled hm hseq hprev hhead hx htouched
  obtain ⟨-, hheld, hrevised⟩ :=
    (hrun.revise_cases hm hseq hprev hhead hx).resolve_left fun hnot =>
      Bool.false_ne_true (hnot.1.symm.trans htouched)
  rw [hst] at hvalue hrevised
  exact ⟨hheld, hvalue, hrevised⟩

theorem Run.parts_step (hm : m.validate = .ok ()) (h : Run m (e :: past) t)
    (hnarrows : Narrows m past e e') (hx : x ∈ finals past)
    (hparts : Cell.Parts (Overreached m past x.2.frame) x.2 c') :
    Cell.Parts (Overreached m (e :: past) x.2.frame) (x.2.revise e.2) (c'.revise e'.2) := by
  have hover := hnarrows.excess x.2.frame
  cases hg : e.2.touches x.2.frame with
  | false =>
      have hg' : e'.2.touches c'.frame = false := by
        rw [hparts.frame]
        exact Bool.eq_false_iff.mpr fun hg' => by simp [hnarrows.within _ hg'] at hg
      have hsame : Overreached m (e :: past) x.2.frame ↔ Overreached m past x.2.frame := by
        simp [Overreached, hover, hg]
      rw [Cell.revise_of_not_touched hg, Cell.revise_of_not_touched hg', hsame]
      exact hparts
  | true =>
      obtain ⟨hheld, hvalue, hrevised⟩ := h.touched_cell hm hx hg
      have hbefore : ¬ Overreached m past x.2.frame := fun hbefore => by
        have htag := (hparts.tag hbefore).1
        rw [hheld] at htag
        cases htag
      obtain rfl := hparts.same hbefore
      cases hg' : e'.2.touches x.2.frame with
      | true =>
          obtain ⟨rev, hsome, -⟩ := (Option.any_eq_true _ _).mp hg
          obtain ⟨rev', hsome', -⟩ := (Option.any_eq_true _ _).mp hg'
          refine .of_eq ?_ ?_
          · rintro (hover' | hover')
            · simp [(hover.mp hover').2] at hg'
            · exact hbefore hover'
          · rw [Cell.revise_of_touched hsome hg, Cell.revise_of_touched hsome' hg',
              hnarrows.value rev rev' hsome hsome']
      | false =>
          rw [Cell.revise_of_not_touched hg', hrevised]
          exact ⟨rfl, fun hnot => absurd (.inl (hover.mpr ⟨hg, hg'⟩)) hnot, fun _ => hvalue,
            fun _ => ⟨rfl, hheld⟩⟩

theorem Run.column_parts (hm : m.validate = .ok ()) (h : Run m past t) (h' : Run m past' t')
    (hobs : past'.map (·.1) = past.map (·.1.without drop))
    (hspared : ∀ g ∈ provenIn m past, drop g = false)
    (hdropped : ∀ d ∈ past.flatMap (·.2.discarded), d.reason = .suspectSuperseded →
      drop d.frame = true) :
    List.Forall₂ (fun c => Cell.Parts (Overreached m past c.frame) c)
      (column past) (column past') := by
  induction past generalizing past' t t' with
  | nil =>
      obtain rfl := List.map_eq_nil_iff.mp hobs
      exact .nil
  | cons e past ih =>
      cases past' with
      | nil => cases hobs
      | cons e' past' =>
          have halike := h.alike hm h' hobs hspared
          obtain ⟨hone, hrest⟩ := List.cons.inj hobs
          obtain ⟨t₀, hrun, -⟩ := h.of_cons
          obtain ⟨t₀', hrun', -⟩ := h'.of_cons
          have hold := ih hrun hrun' hrest (fun g hg => hspared g (List.mem_append_right _ hg))
            fun d hd => hdropped d (List.mem_append_right _ hd)
          have hnarrows : Narrows m past e e' := by
            refine h.narrows hm halike fun ha p hp => ⟨fun hkept => ?_, fun hagrees => ?_⟩
            · refine (h.agrees_or_superseded hm ha hp).resolve_right fun hsuperseded => ?_
              have hdrop := hdropped _ (List.mem_append_left _ hsuperseded) rfl
              exact Bool.false_ne_true (hkept.symm.trans hdrop)
            · exact hspared p.frame (List.mem_append_left _ (mem_proven_of_agrees ha hp hagrees))
          rw [column_cons, column_cons]
          refine .cons (.of_eq (fun hover => ?_) (halike.firstCell hone)) ?_
          · obtain ⟨l, hl, hlt⟩ := h.overreached_lt hm hover
            cases hl
            exact Nat.lt_irrefl _ hlt
          · rw [column] at hold ⊢
            rw [List.forall₂_map_left_iff] at hold
            rw [List.forall₂_map_left_iff, List.forall₂_map_left_iff, List.forall₂_map_right_iff]
            refine ((List.forall₂_and_left _ _).mpr ⟨fun x hx => hx, hold⟩).imp fun x c' hxc => ?_
            rw [Cell.revise_frame]
            exact h.parts_step hm hnarrows hxc.1 hxc.2

end Track

namespace Reconciler

variable {s : ModelSet} {past past' : List (RawFrame × StepReport)} {r : Reconciler} {n : String}
  {m : FieldModel} {hist hist' : List (Observation × FieldStep)} {e e' : RawFrame × StepReport}
  {x : Observation × FieldStep} {drop : String → Nat → Bool} {keep : Nat → Bool}

def Overreaches (m : FieldModel) (n : String) (e : RawFrame × StepReport)
    (past : List (RawFrame × StepReport)) (g : Nat) : Prop :=
  ∃ st, e.2.fields.get? n = some st ∧ st.outcome = .confirmed ∧
    ∃ rev, st.revision = some rev ∧ rev.covers g = true ∧
      ∀ x ∈ past, rev.first ≤ x.1.frame → x.1.frame ≤ g → x.2.outcome? n = some .suspect →
        m.shown (x.1.reading n) (x.1.confidenceOf n) ≠ some rev.value

def Overreached (m : FieldModel) (n : String) : List (RawFrame × StepReport) → Nat → Prop
  | [], _ => False
  | e :: past, g => Overreaches m n e past g ∨ Overreached m n past g

theorem overreaches_iff_of_share (hs : Share n e x) (hshare : List.Forall₂ (Share n) past hist)
    (g : Nat) : Overreaches m n e past g ↔ Track.Overreaches m x hist g := by
  have hunsupported (rev : Revision) := forall_of_forall₂ hshare
    (P := fun x => rev.first ≤ x.1.frame → x.1.frame ≤ g → x.2.outcome? n = some .suspect →
      m.shown (x.1.reading n) (x.1.confidenceOf n) ≠ some rev.value)
    (Q := fun x => rev.first ≤ x.1.frame → x.1.frame ≤ g → Track.bears m rev.value x = false)
    fun a b hab => by
      simp [Track.bears, StepReport.outcome?, hab.frame, hab.reading, hab.confidence, hab.step]
  simp only [Overreaches, Track.Overreaches, hs.step, Option.some.injEq, exists_eq_left',
    hunsupported]

theorem overreached_iff_of_share (hshare : List.Forall₂ (Share n) past hist) (g : Nat) :
    Overreached m n past g ↔ Track.Overreached m hist g := by
  induction hshare with
  | nil => exact Iff.rfl
  | cons hs hshare ih => exact or_congr (overreaches_iff_of_share hs hshare g) ih

theorem Omitted.records_parts (h : Omitted s drop past past')
    (hfield : Omitted.Field (drop n) n m past past' hist hist') (hm : m.validate = .ok ())
    (hdropped : ∀ d ∈ hist.flatMap (·.2.discarded), d.reason = .suspectSuperseded →
      drop n d.frame = true) :
    List.Forall₂ (fun x x' => Cell.Parts (Overreached m n past x.frame) (x.cell n) (x'.cell n))
      (StepReport.records (past.map (·.2)).reverse)
      (StepReport.records (past'.map (·.2)).reverse) := by
  obtain ⟨r, hrun⟩ := h.run
  obtain ⟨r', hrun'⟩ := h.run'
  obtain ⟨t, hfirst⟩ := hfield.run
  obtain ⟨t', hsecond⟩ := hfield.run'
  have hcolumns := hfirst.column_parts hm hsecond hfield.observations hfield.spared hdropped
  rw [← List.forall₂_reverse_iff, ← hrun.cells hfield.share, ← hrun'.cells hfield.share',
    List.forall₂_map_left_iff, List.forall₂_map_right_iff] at hcolumns
  refine hcolumns.imp fun x x' hparts => ?_
  rw [overreached_iff_of_share hfield.share]
  exact hparts

theorem Omitted.Field.replay_cell (h : Omitted.Field keep n m (e :: past) (e' :: past') hist hist')
    (hm : m.validate = .ok ()) (drop : String → Nat → Bool) (f : RawFrame) :
    (TimelineBuilder.replay (f.without drop)
        (StepReport.lastFields ((e' :: past').map (·.2)).reverse)).cell n =
      (TimelineBuilder.replay f (StepReport.lastFields ((e :: past).map (·.2)).reverse)).cell n := by
  obtain ⟨x, x', older, -, -, -, hs, hs', halike⟩ := h.head hm
  have hlast {e : RawFrame × StepReport} {x : Observation × FieldStep} (hs : Share n e x)
      (past : List (RawFrame × StepReport)) :
      (StepReport.lastFields ((e :: past).map (·.2)).reverse).get? n = some x.2.value := by
    rw [List.map_cons, List.reverse_cons, StepReport.lastFields_concat, StepReport.record,
      Table.get?_map, hs.step]
    rfl
  obtain ⟨htag, hvalue⟩ := TimelineBuilder.replay_shows (hlast hs past) f
  obtain ⟨htag', hvalue'⟩ := TimelineBuilder.replay_shows (hlast hs' past') (f.without drop)
  rw [CorrectedState.cell, CorrectedState.cell, htag, htag', hvalue, hvalue', halike.value]
  rfl

end Reconciler

namespace TimelineBuilder.Assembled

variable {s : ModelSet} {frames rest rest' : List RawFrame}
  {past past' : List (RawFrame × StepReport)} {r r' : Reconciler} {t t' : Timeline}
  {quality quality' : QualityReport} {n : String} {m : FieldModel} {f : RawFrame}
  {drop : String → Nat → Bool} {hist hist' : List (Observation × FieldStep)}

theorem not_overreached (h : Assembled s frames past r rest t quality)
    (hord : frames.Pairwise (·.frame < ·.frame)) (hm : s.get? n = some m) (hf : f ∈ rest) :
    ¬ Reconciler.Overreached m n past f.frame := by
  obtain ⟨track, hist, -, hrun, hshare⟩ := h.run.field hm
  rw [Reconciler.overreached_iff_of_share hshare]
  intro hover
  obtain ⟨l, hl, hlt⟩ := hrun.overreached_lt (ModelSet.validate_of_get? hm) hover
  obtain ⟨y, hy, rfl⟩ := Option.map_eq_some_iff.mp hl
  obtain ⟨e, he, hs⟩ := exists_of_forall₂ hshare (List.mem_of_head? hy)
  rw [← h.stream] at hord
  have hbefore := (List.pairwise_append.mp hord).2.2 e.1
    (List.mem_reverse.mpr (List.mem_map_of_mem he)) f hf
  rw [hs.frame] at hlt
  exact Nat.lt_asymm hlt hbefore

theorem parts (h : Assembled s frames past r rest t quality)
    (h' : Assembled s (frames.map (·.without drop)) past' r' (rest.map (·.without drop)) t'
      quality') (hord : frames.Pairwise (·.frame < ·.frame))
    (homitted : Reconciler.Omitted s drop past past') (hm : s.get? n = some m)
    (hfield : Reconciler.Omitted.Field (drop n) n m past past' hist hist')
    (hdropped : ∀ d ∈ hist.flatMap (·.2.discarded), d.reason = .suspectSuperseded →
      drop n d.frame = true) :
    List.Forall₂ (fun x x' => Cell.Parts (Reconciler.Overreached m n past x.frame) (x.cell n)
      (x'.cell n)) t.toList t'.toList := by
  have hvalid := ModelSet.validate_of_get? hm
  rw [h.states, h'.states]
  refine List.rel_append (homitted.records_parts hfield hvalid hdropped) ?_
  rw [List.map_map, List.forall₂_map_left_iff, List.forall₂_map_right_iff, List.forall₂_same]
  intro f hf
  refine .of_eq (h.not_overreached hord hm hf) ?_
  obtain ⟨e, he, -⟩ := h.ends (List.ne_nil_of_mem hf)
  obtain ⟨older, rfl⟩ := List.head?_eq_some_iff.mp he
  cases past' with
  | nil => cases homitted.frames
  | cons e' older' => exact hfield.replay_cell hvalid drop f

end TimelineBuilder.Assembled

theorem assemble_superseded {s : ModelSet} {frames : List RawFrame} {t : Timeline}
    {quality : QualityReport} (h : assemble s frames = .ok (t, quality)) :
    ∃ past r rest t' quality', TimelineBuilder.Assembled s frames past r rest t quality ∧
      assemble s (frames.map (·.without (Discard.listed
        (((Reconciler.new s).discards frames).filter (·.2.reason = .suspectSuperseded))))) =
          .ok (t', quality') ∧
      quality'.frozenAt = quality.frozenAt ∧
      t'.toList.map (·.stamp) = t.toList.map (·.stamp) ∧
      ∀ n m, s.get? n = some m → List.Forall₂
        (fun x x' => Cell.Parts (Reconciler.Overreached m n past x.frame) (x.cell n) (x'.cell n))
        t.toList t'.toList := by
  obtain ⟨past, r, rest, past', r', t', quality', hall, h', hall', homitted, hfrozen⟩ :=
    assemble_omitted h (List.filter_sublist (p := (·.2.reason = .suspectSuperseded))).subset
  refine ⟨past, r, rest, t', quality', hall, h', hfrozen, ?_, fun n m hm => ?_⟩
  · rw [hall.stamps, hall'.stamps, List.map_map]
    rfl
  · have hordered := (assemble_ok_iff_admissible.mp ⟨t, quality, h⟩).ordered
    obtain ⟨hist, hist', hfield⟩ := homitted.field hm
    obtain ⟨track, hrun⟩ := hfield.run
    have htrack := hall.run.track_of_share hm hrun hfield.share
    refine hall.parts hall' hordered homitted hm hfield fun d hd hreason => ?_
    have hmem := (hall.mem_discards_iff hfield.share htrack).mpr (List.mem_append_left _ hd)
    exact List.any_eq_true.mpr ⟨(n, d), List.mem_filter.mpr ⟨hmem, by simpa using hreason⟩, by simp⟩

theorem assemble_superseded_gold : ∃ t quality past r rest t' quality',
    assemble (.single (.new "gold" .nonNegative (.boundedDelta 1)) rfl)
        [.showing 0 "gold" 5, .showing 1 "gold" 20, .showing 2 "gold" 9, .showing 3 "gold" 9] =
          .ok (t, quality) ∧
      TimelineBuilder.Assembled (.single (.new "gold" .nonNegative (.boundedDelta 1)) rfl)
        [.showing 0 "gold" 5, .showing 1 "gold" 20, .showing 2 "gold" 9, .showing 3 "gold" 9]
        past r rest t quality ∧
      assemble (.single (.new "gold" .nonNegative (.boundedDelta 1)) rfl)
        [.showing 0 "gold" 5, (RawFrame.new 1 0).withReading "gold" none, .showing 2 "gold" 9,
          .showing 3 "gold" 9] = .ok (t', quality') ∧
      quality'.frozenAt = quality.frozenAt ∧
      List.Forall₂ (fun x x' => Cell.Parts (Reconciler.Overreached
          (.new "gold" .nonNegative (.boundedDelta 1)) "gold" past x.frame)
        (x.cell "gold") (x'.cell "gold")) t.toList t'.toList := by
  have hrun : ∃ t quality,
      assemble (.single (.new "gold" .nonNegative (.boundedDelta 1)) rfl)
        [.showing 0 "gold" 5, .showing 1 "gold" 20, .showing 2 "gold" 9, .showing 3 "gold" 9] =
          .ok (t, quality) := ⟨_, _, rfl⟩
  obtain ⟨t, quality, h⟩ := hrun
  obtain ⟨past, r, rest, t', quality', hall, h', hfrozen, -, hparts⟩ := assemble_superseded h
  exact ⟨t, quality, past, r, rest, t', quality', h, hall, h', hfrozen, hparts "gold" _ rfl⟩

/-- The reading of frame 1 is superseded when frame 3 confirms the 9 of frame 2, and yet it is from
frame 1 on that the 9 is shown. -/
theorem superseded_reading_matters : ∃ t quality t' quality',
    assemble (.single (.new "gold" .nonNegative (.boundedDelta 1)) rfl)
        [.showing 0 "gold" 5, .showing 1 "gold" 20, .showing 2 "gold" 9, .showing 3 "gold" 9] =
          .ok (t, quality) ∧
      ((Reconciler.new (.single (.new "gold" .nonNegative (.boundedDelta 1)) rfl)).discards
        [.showing 0 "gold" 5, .showing 1 "gold" 20, .showing 2 "gold" 9,
          .showing 3 "gold" 9]).map (fun d => (d.1, d.2.frame, d.2.reason)) =
            [("gold", 1, .suspectSuperseded)] ∧
      t.series "gold" = [some (.int 5), some (.int 9), some (.int 9), some (.int 9)] ∧
      assemble (.single (.new "gold" .nonNegative (.boundedDelta 1)) rfl)
        [.showing 0 "gold" 5, (RawFrame.new 1 0).withReading "gold" none, .showing 2 "gold" 9,
          .showing 3 "gold" 9] = .ok (t', quality') ∧
      t'.series "gold" = [some (.int 5), some (.int 5), some (.int 9), some (.int 9)] :=
  ⟨_, _, _, _, rfl, rfl, rfl, rfl, rfl⟩

end GameTimeline
