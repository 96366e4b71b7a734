import GameTimeline.Proofs.Timeline.Admission
import GameTimeline.Proofs.Timeline.Assembly

namespace GameTimeline

def Table.only {α : Type} (t : Table α) (k : String) : Table α :=
  ⟨t.entries.filter (·.1 = k), t.ordered.filter _⟩

theorem Table.get?_only {α : Type} (t : Table α) (k : String) : (t.only k).get? k = t.get? k := by
  refine Option.ext fun a => ?_
  rw [get?_eq_some_iff, get?_eq_some_iff]
  simp [only]

theorem Table.mem_keys_only {α : Type} {t : Table α} {k n : String} (h : n ∈ (t.only k).keys) :
    n = k := by
  obtain ⟨e, he, rfl⟩ := List.mem_map.mp h
  exact of_decide_eq_true (List.mem_filter.mp he).2

namespace RawFrame

def only (f : RawFrame) (n : String) : RawFrame :=
  { f with readings := f.readings.only n, confidence := f.confidence.only n }

def input (n : String) (f : RawFrame) : Nat × Reading × Option Float32 :=
  (f.frame, f.reading n, f.confidenceOf n)

theorem input_only (f : RawFrame) (n : String) : (f.only n).input n = f.input n := by
  simp only [input, reading, confidenceOf, only, Table.get?_only]

theorem known_only {s : ModelSet} {n : String} (hn : n ∈ s.names) (f : RawFrame) :
    (f.only n).Known s :=
  fun _ hk => Table.mem_keys_only hk ▸ hn

end RawFrame

namespace ModelSet

variable {m : FieldModel} {hm : m.validate = .ok ()}

theorem get?_single : (single m hm).get? m.name = some m := by
  simp [get?, Table.get?, Table.findEntry, single]

theorem names_single : (single m hm).names = [m.name] := rfl

end ModelSet

namespace Reconciler

variable {s s' : ModelSet} {past past' : List (RawFrame × StepReport)} {r r' : Reconciler}
  {n : String} {m : FieldModel}

theorem input_eq_of_share {hist : List (Observation × FieldStep)}
    (hshare : List.Forall₂ (Share n) past hist) :
    hist.map Track.input = past.map (·.1.input n) := by
  induction hshare with
  | nil => rfl
  | cons hs _ ih =>
      rw [List.map_cons, List.map_cons, ih, Track.input, RawFrame.input, hs.frame, hs.reading,
        hs.confidence]

theorem Run.same_field (h : Run s past r) (h' : Run s' past' r') (hm : s.get? n = some m)
    (hm' : s'.get? n = some m) (hinput : past.map (·.1.input n) = past'.map (·.1.input n)) :
    ∃ t hist, r.tracks.get? n = some t ∧ r'.tracks.get? n = some t ∧
      List.Forall₂ (Share n) past hist ∧ List.Forall₂ (Share n) past' hist := by
  obtain ⟨t, hist, ht, hfield, hshare⟩ := h.field hm
  obtain ⟨t', hist', ht', hfield', hshare'⟩ := h'.field hm'
  obtain ⟨rfl, rfl⟩ := hfield.unique hfield' (by
    rw [input_eq_of_share hshare, input_eq_of_share hshare', hinput])
  exact ⟨t, hist, ht, ht', hshare, hshare'⟩

theorem Run.terminal_of_single {hvalid : m.validate = .ok ()} {e e' : RawFrame × StepReport}
    {older older' : List (RawFrame × StepReport)} (h : Run s (e :: older) r)
    (h' : Run (.single m hvalid) (e' :: older') r') (hm : s.get? m.name = some m)
    (hinput : (e :: older).map (·.1.input m.name) = (e' :: older').map (·.1.input m.name))
    (hterminal : e'.2.terminal ≠ []) : e.2.terminal ≠ [] := by
  obtain ⟨k, hk⟩ := List.exists_mem_of_ne_nil _ hterminal
  obtain ⟨st, hst, hend⟩ := StepReport.mem_terminal_iff.mp hk
  have hkeys := (h'.report_shape (List.mem_cons_self ..)).2.2
  obtain rfl : k = m.name := by
    have hmem : k ∈ (ModelSet.single m hvalid).names :=
      hkeys ▸ Table.mem_keys_iff.mpr ⟨st, hst⟩
    exact List.mem_singleton.mp hmem
  obtain ⟨t, hist, -, -, hshare, hshare'⟩ := h.same_field h' hm ModelSet.get?_single hinput
  cases hshare with
  | cons hs _ =>
      cases hshare' with
      | cons hs' _ =>
          obtain rfl := Option.some.inj (hst.symm.trans hs'.step)
          exact List.ne_nil_of_mem (StepReport.mem_terminal_iff.mpr ⟨_, hs.step, hend⟩)

end Reconciler

namespace TimelineBuilder.Assembled

variable {s : ModelSet} {frames rest : List RawFrame} {past : List (RawFrame × StepReport)}
  {r : Reconciler} {t : Timeline} {quality : QualityReport} {n : String} {m : FieldModel}
  {hvalid : m.validate = .ok ()} {past₁ : List (RawFrame × StepReport)} {r₁ : Reconciler}
  {rest₁ : List RawFrame} {t₁ : Timeline} {quality₁ : QualityReport}

theorem single_past (h : Assembled s frames past r rest t quality)
    (h₁ : Assembled (.single m hvalid) ((past.map (·.1)).reverse.map (·.only m.name)) past₁ r₁ rest₁
      t₁ quality₁) (hm : s.get? m.name = some m) :
    rest₁ = [] ∧ past.map (·.1.input m.name) = past₁.map (·.1.input m.name) := by
  have hinputs : ((past₁.map (·.1)).reverse ++ rest₁).map (·.input m.name) =
      (past.map (·.1.input m.name)).reverse := by
    rw [h₁.stream, List.map_map, List.map_reverse, List.map_map]
    exact congrArg List.reverse (List.map_congr_left fun e _ => e.1.input_only m.name)
  rw [List.map_append, List.map_reverse, List.map_map] at hinputs
  -- the field cannot end the game alone where it does not end it among the others
  have hends : Reconciler.EndsWhere past past₁ := by
    rintro later e older later' e' older' rfl rfl hlength hterminal
    obtain ⟨r₀, hrun⟩ := h.run.older
    obtain ⟨r₀', hrun'⟩ := h₁.run.older
    have hheads := history_unique (hinputs.trans (List.append_nil _).symm)
      ((List.suffix_append later' (e' :: older')).map (·.1.input m.name))
      ((List.suffix_append later (e :: older)).map (·.1.input m.name)) (by simp [hlength])
    exact hrun.terminal_of_single hrun' hm hheads.symm hterminal
  have hle := h.length_le h₁ (by simp) hends
  have hlength := h₁.length_eq
  simp only [List.length_map, List.length_reverse] at hlength
  obtain rfl : rest₁ = [] := List.eq_nil_of_length_eq_zero (by omega)
  rw [List.map_nil, List.append_nil] at hinputs
  exact ⟨rfl, (List.reverse_injective hinputs).symm⟩

end TimelineBuilder.Assembled

theorem assemble_separates {s : ModelSet} {frames : List RawFrame} {t : Timeline}
    {quality : QualityReport} {n : String} {m : FieldModel}
    (h : assemble s frames = .ok (t, quality)) (hm : s.get? n = some m) :
    ∃ t₁ quality₁ q q₁,
      assemble (.single m (ModelSet.validate_of_get? hm))
        ((frames.filter (quality.plays ·.frame)).map (·.only n)) = .ok (t₁, quality₁) ∧
      (t.toList.filter (quality.plays ·.frame)).map (·.cell n) = t₁.toList.map (·.cell n) ∧
      quality.fields.get? n = some q ∧ quality₁.fields.get? n = some q₁ ∧
      { q with ignoredAfterFreeze := 0 } = { q₁ with ignoredAfterFreeze := 0 } := by
  have hadm := assemble_ok_iff_admissible.mp ⟨t, quality, h⟩
  obtain ⟨past, r, rest, hall⟩ := TimelineBuilder.assembled h
  obtain rfl := ModelSet.name_of_get? hm
  obtain ⟨hplayed, -⟩ := hall.filter_plays hadm.ordered
  rw [hplayed, hall.filter_states hadm.ordered]
  have hadm₁ : Admissible (.single m (ModelSet.validate_of_get? hm))
      ((past.map (·.1)).reverse.map (·.only m.name)) := by
    refine ⟨List.pairwise_map.mpr (hplayed ▸ hadm.ordered.filter _), fun f hf => ?_⟩
    obtain ⟨f, -, rfl⟩ := List.mem_map.mp hf
    exact RawFrame.known_only (ModelSet.names_single ▸ List.mem_singleton_self _) f
  obtain ⟨t₁, quality₁, h₁⟩ := assemble_ok_iff_admissible.mpr hadm₁
  obtain ⟨past₁, r₁, rest₁, hall₁⟩ := TimelineBuilder.assembled h₁
  obtain ⟨rfl, hinput⟩ := hall.single_past hall₁ hm
  obtain ⟨track, hist, ht, ht₁, hshare, hshare₁⟩ :=
    hall.run.same_field hall₁.run hm ModelSet.get?_single hinput
  refine ⟨t₁, quality₁, _, _, h₁, ?_, hall.field _ _ track hist hm ht hshare,
    hall₁.field _ _ track hist ModelSet.get?_single ht₁ hshare₁, rfl⟩
  rw [hall.run.cells hshare, hall₁.states, List.map_nil, List.append_nil, hall₁.run.cells hshare₁]

theorem assemble_separates_gold : ∃ s t quality t₁ quality₁ q q₁,
    ModelSet.ofList [.boundedDelta "gold" 1,
        { FieldModel.counter "xp" with terminal := some (.int 7) }] = .ok s ∧
      assemble s [(RawFrame.showing 0 "gold" 5).withReading "xp" (some (.int 1)),
        .showing 1 "gold" 9, (RawFrame.showing 2 "gold" 9).withReading "xp" (some (.int 7)),
        .showing 3 "gold" 6] = .ok (t, quality) ∧
      t.series "gold" = [some (.int 5), some (.int 9), some (.int 9), some (.int 9)] ∧
      assemble (.single (.boundedDelta "gold" 1) rfl)
        [.showing 0 "gold" 5, .showing 1 "gold" 9, .showing 2 "gold" 9] = .ok (t₁, quality₁) ∧
      (t.toList.filter (·.frame ≤ 2)).map (·.cell "gold") = t₁.toList.map (·.cell "gold") ∧
      quality.fields.get? "gold" = some q ∧ quality₁.fields.get? "gold" = some q₁ ∧
      { q with ignoredAfterFreeze := 0 } = { q₁ with ignoredAfterFreeze := 0 } := by
  have hrun : ∃ s t quality,
      ModelSet.ofList [.boundedDelta "gold" 1,
          { FieldModel.counter "xp" with terminal := some (.int 7) }] = .ok s ∧
        s.get? "gold" = some (.boundedDelta "gold" 1) ∧
        assemble s [(RawFrame.showing 0 "gold" 5).withReading "xp" (some (.int 1)),
          .showing 1 "gold" 9, (RawFrame.showing 2 "gold" 9).withReading "xp" (some (.int 7)),
          .showing 3 "gold" 6] = .ok (t, quality) ∧
        quality.frozenAt = some 2 ∧
        t.series "gold" = [some (.int 5), some (.int 9), some (.int 9), some (.int 9)] :=
    ⟨_, _, _, rfl, rfl, rfl, rfl, rfl⟩
  obtain ⟨s, t, quality, hs, hm, h, hfrozen, hseries⟩ := hrun
  obtain ⟨t₁, quality₁, q, q₁, h₁, hcells, hq, hq₁, hsame⟩ := assemble_separates h hm
  rw [QualityReport.plays_of_frozen hfrozen] at h₁ hcells
  exact ⟨s, t, quality, t₁, quality₁, q, q₁, hs, h, hseries, h₁, hcells, hq, hq₁, hsame⟩

end GameTimeline
