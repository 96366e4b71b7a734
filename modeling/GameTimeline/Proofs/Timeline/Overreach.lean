import GameTimeline.Proofs.Timeline.Inert
import GameTimeline.Proofs.Timeline.Steady

namespace GameTimeline

namespace Track

variable {m : FieldModel} {past past' : List (Observation × FieldStep)} {t t' : Track}
  {e e' x : Observation × FieldStep} {drop : Nat → Bool} {p q : Pending} {ps : List Pending}
  {c : FieldValue} {st : FieldStep} {rev : Revision} {g : Nat}

/-- A confirmation revises a frame though no reading of the value that it confirms waits between
the beginning of the revision and there. -/
def Overreaches (m : FieldModel) (e : Observation × FieldStep)
    (past : List (Observation × FieldStep)) (g : Nat) : Prop :=
  e.2.outcome = .confirmed ∧ ∃ rev, e.2.revision = some rev ∧ rev.covers g = true ∧
    ∀ x ∈ past, rev.first ≤ x.1.frame → x.1.frame ≤ g → bears m rev.value x = false

def Overreached (m : FieldModel) : List (Observation × FieldStep) → Nat → Prop
  | [], _ => False
  | e :: past, g => Overreaches m e past g ∨ Overreached m past g

theorem bears_of_suspect (hp : p ∈ suspects m past) :
    ∃ x ∈ past, x.1.frame = p.frame ∧ bears m p.value x = true := by
  induction past with
  | nil => cases hp
  | cons e past ih =>
      have hold (hp : p ∈ suspects m past) :
          ∃ x ∈ e :: past, x.1.frame = p.frame ∧ bears m p.value x = true := by
        obtain ⟨x, hx, hframe, hbears⟩ := ih hp
        exact ⟨x, List.mem_cons_of_mem _ hx, hframe, hbears⟩
      simp only [suspects] at hp
      split at hp
      · cases hp
      · split at hp
        · rename_i hsuspect
          rcases List.mem_append.mp hp with hp | hp
          · exact hold hp
          · obtain ⟨c, hc, rfl⟩ := Option.map_eq_some_iff.mp (Option.mem_toList.mp hp)
            exact ⟨e, List.mem_cons_self .., rfl, by simp [bears, hsuspect, hc]⟩
        · exact hold hp

theorem suspect_of_bears (hord : past.Pairwise (·.1.frame > ·.1.frame)) (hx : x ∈ past)
    (hbears : bears m c x = true)
    (hafter : ∀ y ∈ past, y.2.outcome.isAccepted = true → y.1.frame < x.1.frame) :
    ∃ p ∈ suspects m past, p.frame = x.1.frame ∧ p.value = c := by
  induction past with
  | nil => cases hx
  | cons e past ih =>
      obtain ⟨hfirst, hrest⟩ := List.pairwise_cons.mp hord
      rcases List.mem_cons.mp hx with rfl | hx
      · simp only [bears, Bool.and_eq_true, decide_eq_true_eq] at hbears
        rw [suspects_cons_suspect hbears.1 hbears.2]
        exact ⟨_, List.mem_append_right _ (List.mem_singleton_self _), rfl, rfl⟩
      · obtain ⟨p, hp, hframe, hvalue⟩ := ih hrest hx fun y hy =>
          hafter y (List.mem_cons_of_mem _ hy)
        refine ⟨p, ?_, hframe, hvalue⟩
        have hnot : ¬ e.2.outcome.isAccepted = true := by
          intro ha
          have hlt := hafter e (List.mem_cons_self ..) ha
          have hgt := hfirst x hx
          omega
        rw [suspects, if_neg hnot]
        split
        · exact List.mem_append_left _ hp
        · exact hp

theorem waiting_of_bears (h : Run m past t) (hq : q ∈ waiting m past) (hx : x ∈ past)
    (hle : q.frame ≤ x.1.frame) (hbears : bears m c x = true) :
    ∃ p ∈ waiting m past, p.frame = x.1.frame ∧ p.value = c := by
  obtain ⟨hsuspect, hfresh⟩ := List.mem_filter.mp hq
  have hord := h.frames
  obtain ⟨p, hp, hframe, hvalue⟩ := suspect_of_bears hord hx hbears fun y hy ha =>
    Nat.lt_of_lt_of_le (accepted_before_suspect hord hsuspect y hy ha) hle
  have hlater := h.fresh_of_later hsuspect hp (hle.trans (Nat.le_of_eq hframe.symm))
    (Bool.not_eq_true' _ ▸ hfresh)
  exact ⟨p, List.mem_filter.mpr ⟨hp, Bool.not_eq_true' _ ▸ hlater⟩, hframe, hvalue⟩

theorem touches_of_revision (h : st.revision = some rev) (g : Nat) :
    st.touches g = rev.covers g := by
  rw [FieldStep.touches, h, Option.any_some]

theorem touches_of_none (h : st.revision = none) (g : Nat) : st.touches g = false := by
  rw [FieldStep.touches, h, Option.any_none]

theorem touches_of_upTo? {b : Belief} {o : Observation} {last : Option Nat} {seq : Nat}
    (hs : b.Standing m last seq) (hprev : o.previousFrame = last)
    (hlast : ∀ l, last = some l → l < o.frame)
    (hrev : st.revision =
      Revision.upTo? o.previousFrame (b.pending ++ [⟨o.frame, o.seq, c⟩]) c) (g : Nat) :
    st.touches g = true ↔ (∃ q ∈ b.pending, q.frame ≤ g) ∧ ∃ l, last = some l ∧ g ≤ l := by
  have hreached := hs.reached
  have hord := hs.frames
  rw [hprev] at hrev
  cases hb : b.pending with
  | nil =>
      have hnone : st.revision = none := by
        rw [hrev, hb]
        cases hl : last with
        | none => rfl
        | some l => simp [Revision.upTo?, hlast l hl]
      simp [touches_of_none hnone]
  | cons p ps =>
      rw [hb] at hrev hreached hord
      obtain ⟨l, rfl, hle⟩ := hreached p (List.mem_cons_self ..)
      rw [touches_of_revision (hrev.trans (upTo?_of_head rfl hle c)), Revision.covers,
        Bool.and_eq_true, decide_eq_true_eq, decide_eq_true_eq]
      constructor
      · rintro ⟨hfirst, hlast⟩
        exact ⟨⟨p, List.mem_cons_self .., hfirst⟩, l, rfl, hlast⟩
      · rintro ⟨⟨q, hq, hqg⟩, l', hl', hlast⟩
        cases hl'
        refine ⟨?_, hlast⟩
        rcases List.mem_cons.mp hq with rfl | hq
        · exact hqg
        · exact (Nat.le_of_lt ((List.pairwise_cons.mp hord).1 q hq)).trans hqg

theorem Run.touches_confirmed (hm : m.validate = .ok ()) (h : Run m (e :: past) t)
    (hps : ps.Sublist (waiting m past)) (hrev : st.revision =
      Revision.upTo? e.1.previousFrame (ps ++ [⟨e.1.frame, e.1.seq, c⟩]) c) (g : Nat) :
    st.touches g = true ↔ (∃ q ∈ ps, q.frame ≤ g) ∧
      ∃ l, past.head?.map (·.1.frame) = some l ∧ g ≤ l := by
  obtain ⟨t₀, hrun, hseq, hprev, hhead, -, -⟩ := h.of_cons
  have hstanding := (hrun.standing hm).expire e.1.seq
  have hlast : ∀ l, past.head?.map (·.1.frame) = some l → l < e.1.frame := by
    intro l hl
    obtain ⟨x, hx, rfl⟩ := Option.map_eq_some_iff.mp hl
    exact hhead x hx
  rw [← hrun.waiting_eq hm hseq] at hps
  have hkept : Belief.Standing m (past.head?.map (·.1.frame)) past.length
      { t₀.current.expire m.window e.1.seq with pending := ps } := hstanding.of_sublist rfl hps
  exact touches_of_upTo? hkept hprev hlast hrev g

theorem Run.overreaches_iff (hm : m.validate = .ok ()) (h : Run m (e :: past) t)
    (hout : e.2.outcome = .confirmed) (hrev : e.2.revision =
      Revision.upTo? e.1.previousFrame (waiting m past ++ [⟨e.1.frame, e.1.seq, c⟩]) c) :
    Overreaches m e past g ↔
      e.2.touches g = true ∧ ∀ q ∈ waiting m past, q.value = c → g < q.frame := by
  have htouches := h.touches_confirmed hm (List.Sublist.refl _) hrev
  obtain ⟨t₀, hrun, -⟩ := h.of_cons
  constructor
  · rintro ⟨-, rev, hsome, hcovers, hnone⟩
    have hg : e.2.touches g = true := (touches_of_revision hsome g).trans hcovers
    refine ⟨hg, fun q hq hqv => ?_⟩
    by_contra hqg
    obtain ⟨-, l, hl, hle⟩ := (htouches g).mp hg
    have hat := (htouches q.frame).mpr ⟨⟨q, hq, Nat.le_refl _⟩, l, hl, by omega⟩
    rw [touches_of_revision hsome, Revision.covers, Bool.and_eq_true, decide_eq_true_eq] at hat
    obtain ⟨-, -, -, hvalue⟩ := upTo?_eq_some (hrev.symm.trans hsome)
    obtain ⟨x, hx, hxf, hbears⟩ := bears_of_suspect (List.mem_filter.mp hq).1
    have hnot := hnone x hx (hxf ▸ hat.1) (by omega)
    rw [hvalue, ← hqv, hbears] at hnot
    cases hnot
  · rintro ⟨hg, hlater⟩
    obtain ⟨rev, hsome, hcovers⟩ := (Option.any_eq_true _ _).mp hg
    refine ⟨hout, rev, hsome, hcovers, fun x hx hxf hxg => Bool.eq_false_iff.mpr fun hbears => ?_⟩
    obtain ⟨-, -, hle, hvalue⟩ := upTo?_eq_some (hrev.symm.trans hsome)
    have hat : e.2.touches rev.first = true := by
      rw [touches_of_revision hsome, Revision.covers, Bool.and_eq_true, decide_eq_true_eq,
        decide_eq_true_eq]
      exact ⟨Nat.le_refl _, hle⟩
    obtain ⟨⟨p, hp, hpf⟩, -⟩ := (htouches _).mp hat
    obtain ⟨q, hq, hqf, hqv⟩ := waiting_of_bears hrun hp hx (hpf.trans hxf) (hvalue ▸ hbears)
    have hlt := hlater q hq hqv
    omega

structure Narrows (m : FieldModel) (past : List (Observation × FieldStep))
    (e e' : Observation × FieldStep) : Prop where
  within : ∀ g, e'.2.touches g = true → e.2.touches g = true
  value : ∀ rev rev', e.2.revision = some rev → e'.2.revision = some rev' → rev'.value = rev.value
  excess : ∀ g, Overreaches m e past g ↔ e.2.touches g = true ∧ e'.2.touches g = false

theorem Narrows.of_revision_eq (h : e'.2.revision = e.2.revision)
    (hout : e.2.outcome ≠ .confirmed) : Narrows m past e e' := by
  have htouches (g : Nat) : e'.2.touches g = e.2.touches g := by
    rw [FieldStep.touches, FieldStep.touches, h]
  refine ⟨fun g hg => htouches g ▸ hg, fun rev rev' hrev hrev' => ?_, fun g => ?_⟩
  · rw [Option.some.inj ((hrev'.symm.trans h).trans hrev)]
  · rw [htouches, Bool.eq_false_iff]
    exact ⟨fun hover => absurd hover.1 hout, fun hg => absurd hg.1 hg.2⟩

theorem Run.narrows_confirmed (hm : m.validate = .ok ()) (h : Run m (e :: past) t)
    (hout : e.2.outcome = .confirmed) (hps : ps.Sublist (waiting m past))
    (hmem : ∀ q ∈ waiting m past, q ∈ ps ↔ q.value = c)
    (hrev : e.2.revision =
      Revision.upTo? e.1.previousFrame (waiting m past ++ [⟨e.1.frame, e.1.seq, c⟩]) c)
    (hrev' : e'.2.revision =
      Revision.upTo? e.1.previousFrame (ps ++ [⟨e.1.frame, e.1.seq, c⟩]) c) :
    Narrows m past e e' := by
  have htouches := h.touches_confirmed hm (List.Sublist.refl _) hrev
  have htouches' := h.touches_confirmed hm hps hrev'
  constructor
  · intro g hg
    obtain ⟨⟨q, hq, hqg⟩, hle⟩ := (htouches' g).mp hg
    exact (htouches g).mpr ⟨⟨q, hps.subset hq, hqg⟩, hle⟩
  · intro rev rev' hsome hsome'
    obtain ⟨-, -, -, hvalue⟩ := upTo?_eq_some (hrev.symm.trans hsome)
    obtain ⟨-, -, -, hvalue'⟩ := upTo?_eq_some (hrev'.symm.trans hsome')
    exact hvalue'.trans hvalue.symm
  · intro g
    rw [h.overreaches_iff hm hout hrev]
    refine and_congr_right fun hg => ?_
    rw [Bool.eq_false_iff, ne_eq, htouches' g]
    constructor
    · rintro hlater ⟨⟨q, hq, hqg⟩, -⟩
      have hqw := hps.subset hq
      have hlt := hlater q hqw ((hmem q hqw).mp hq)
      omega
    · intro hnot q hq hqv
      by_contra hqg
      exact hnot ⟨⟨q, (hmem q hq).mpr hqv, by omega⟩, ((htouches g).mp hg).2⟩

theorem Run.narrows (hm : m.validate = .ok ()) (h : Run m (e :: past) t)
    (halike : Alike drop e.1 (waiting m past) e'.2 e.2)
    (hdrop : e.2.outcome.isAccepted = true →
      ∀ p ∈ waiting m past, drop p.frame = false ↔ some p.value = e.2.value) :
    Narrows m past e e' := by
  by_cases hout : e.2.outcome = .confirmed
  · obtain ⟨c, hvalue, hrev, hrev'⟩ := halike.confirmed hout
    refine h.narrows_confirmed hm hout List.filter_sublist (fun q hq => ?_) hrev hrev'
    have hiff := hdrop (by rw [hout]; rfl) q hq
    rw [hvalue, Option.some.injEq] at hiff
    simp [hq, hiff]
  · exact .of_revision_eq (halike.revision hout) hout

end Track

end GameTimeline
