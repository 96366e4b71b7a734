import GameTimeline.Proofs.Field.Pace

namespace GameTimeline.FieldModel

variable {m : FieldModel} {p c candidate : FieldValue} {previous : Option FieldValue}
  {elapsed later : Nat}

def Falls (m : FieldModel) (p c : FieldValue) : Prop :=
  ∃ b rp rc, m.monotonicity = .nonDecreasing b ∧ m.domain.rank? p = some rp ∧
    m.domain.rank? c = some rc ∧ rc < rp

def Leaps (m : FieldModel) (p c : FieldValue) (elapsed : Nat) : Prop :=
  ∃ d rp rc, m.monotonicity.bound? = some d ∧ m.domain.rank? p = some rp ∧
    m.domain.rank? c = some rc ∧ elapsed ≤ m.maxGap ∧ d.toInt * elapsed < |rc - rp|

theorem ordered_of_ne_free (hm : m.validate = .ok ()) (h : m.monotonicity ≠ .free) :
    m.domain.isOrdered = true := by
  cases hk : m.monotonicity with
  | free => exact absurd hk h
  | nonDecreasing b => exact ordered_of_nonDecreasing hm hk
  | boundedDelta d =>
      apply Domain.isOrdered_of_isNumeric
      exact (bound_sound hm (d := d) (by rw [hk]; rfl)).1

theorem classify_normalized (hc : m.normalize candidate = some c) :
    m.classify previous candidate elapsed = m.classify previous c elapsed := by
  have hself : m.normalize c = some c := Domain.member_of_normalize hc
  simp only [classify, hc, hself]

theorem classify_of_free (h : m.monotonicity = .free) (hc : m.domain.Member c) :
    m.classify (some p) c elapsed = .accept := by
  rcases classify_eq (p := p) hc elapsed with haccept | ⟨rp, rc, -, -, hjudge⟩
  · exact haccept
  · rw [hjudge, judge, h]

theorem classify_step_eq_reject_iff (hm : m.validate = .ok ()) (hp : m.domain.Member p)
    (hc : m.domain.Member c) (elapsed : Nat) :
    m.classify (some p) c elapsed = .reject ↔ m.Falls p c := by
  by_cases hfree : m.monotonicity = .free
  · rw [classify_of_free hfree hc]
    constructor
    · intro h
      cases h
    · rintro ⟨b, rp, rc, hb, -⟩
      cases hfree.symm.trans hb
  · have ho := ordered_of_ne_free hm hfree
    obtain ⟨rp, hrp⟩ := Domain.exists_rank ho hp
    obtain ⟨rc, hrc⟩ := Domain.exists_rank ho hc
    rw [classify_some hc hrp hrc, judge_eq_reject_iff]
    constructor
    · rintro ⟨⟨b, hb⟩, hlt⟩
      exact ⟨b, rp, rc, hb, hrp, hrc, hlt⟩
    · rintro ⟨b, rp', rc', hb, hrp', hrc', hlt⟩
      obtain rfl := Option.some.inj (hrp.symm.trans hrp')
      obtain rfl := Option.some.inj (hrc.symm.trans hrc')
      exact ⟨⟨b, hb⟩, hlt⟩

theorem leaps_of_suspect (hm : m.validate = .ok ()) (hc : m.domain.Member c)
    (h : m.classify (some p) c elapsed = .suspect) : m.Leaps p c elapsed := by
  rcases classify_eq (p := p) hc elapsed with haccept | ⟨rp, rc, hrp, hrc, hjudge⟩
  · cases h.symm.trans haccept
  · obtain ⟨d, hd, hgap, hout⟩ := judge_eq_suspect (hjudge.symm.trans h)
    obtain ⟨hnum, hpos⟩ := bound_sound hm hd
    refine ⟨d, rp, rc, hd, hrp, hrc, hgap, ?_⟩
    obtain ⟨p', rfl⟩ := Domain.rank_eq_toInt hnum hrp
    obtain ⟨c', rfl⟩ := Domain.rank_eq_toInt hnum hrc
    by_contra hle
    have hin : withinBound p'.toInt c'.toInt d elapsed = true :=
      withinBound_of_le hpos (Int.not_lt.mp hle)
    cases hin.symm.trans hout

theorem not_leaps_of_accept (hm : m.validate = .ok ()) (hp : m.domain.Member p)
    (hc : m.domain.Member c) (h : m.classify (some p) c elapsed = .accept) :
    ¬ m.Leaps p c elapsed := by
  rintro ⟨d, rp, rc, hd, hrp, hrc, hgap, hlt⟩
  rcases near_of_classify hm hd hp hc h with hlong | ⟨rp', rc', hrp', hrc', hle⟩
  · exact absurd hlong (Nat.not_lt.mpr hgap)
  · obtain rfl := Option.some.inj (hrp.symm.trans hrp')
    obtain rfl := Option.some.inj (hrc.symm.trans hrc')
    exact absurd hlt (Int.not_lt.mpr hle)

theorem classify_step_eq_suspect_iff (hm : m.validate = .ok ()) (hp : m.domain.Member p)
    (hc : m.domain.Member c) (elapsed : Nat) :
    m.classify (some p) c elapsed = .suspect ↔ ¬ m.Falls p c ∧ m.Leaps p c elapsed := by
  rw [← classify_step_eq_reject_iff hm hp hc elapsed]
  constructor
  · intro h
    exact ⟨by rw [h]; exact nofun, leaps_of_suspect hm hc h⟩
  · rintro ⟨hreject, hleaps⟩
    cases hv : m.classify (some p) c elapsed with
    | accept => exact absurd hleaps (not_leaps_of_accept hm hp hc hv)
    | reject => exact absurd hv hreject
    | suspect => rfl

theorem Leaps.earlier (hm : m.validate = .ok ()) (hle : elapsed ≤ later)
    (h : m.Leaps p c later) : m.Leaps p c elapsed := by
  obtain ⟨d, rp, rc, hd, hrp, hrc, hgap, hlt⟩ := h
  refine ⟨d, rp, rc, hd, hrp, hrc, hle.trans hgap, ?_⟩
  have hpos := (bound_sound hm hd).2
  calc d.toInt * (elapsed : Int)
      ≤ d.toInt * later := Int.mul_le_mul_of_nonneg_left (by exact_mod_cast hle) hpos
    _ < |rc - rp| := hlt

theorem classify_cases (hp : ∀ p ∈ previous, m.domain.Member p) (candidate : FieldValue) :
    m.normalize candidate = none ∧ (∀ n, m.classify previous candidate n = .reject) ∨
    (∃ c, m.normalize candidate = some c) ∧ previous = none ∧
      (∀ n, m.classify previous candidate n = .accept) ∨
    ∃ p c, m.normalize candidate = some c ∧ previous = some p ∧ m.domain.Member p ∧
      m.domain.Member c ∧ ∀ n, m.classify previous candidate n = m.classify (some p) c n := by
  cases hn : m.normalize candidate with
  | none => exact .inl ⟨rfl, fun n => by simp only [classify, hn]⟩
  | some c =>
      cases previous with
      | none => exact .inr (.inl ⟨⟨c, rfl⟩, rfl, fun n => by simp only [classify, hn]⟩)
      | some p =>
          have hc : m.domain.Member c := Domain.member_of_normalize hn
          exact .inr (.inr ⟨p, c, rfl, rfl, hp p rfl, hc, fun n => classify_normalized hn⟩)

theorem classify_eq_accept_iff (hm : m.validate = .ok ())
    (hp : ∀ p ∈ previous, m.domain.Member p) :
    m.classify previous candidate elapsed = .accept ↔
      ∃ c ∈ m.normalize candidate, ∀ p ∈ previous, ¬ m.Falls p c ∧ ¬ m.Leaps p c elapsed := by
  rcases classify_cases hp candidate with
    ⟨hn, hv⟩ | ⟨⟨c, hn⟩, rfl, hv⟩ | ⟨p, c, hn, rfl, hp, hc, hv⟩
  · simp [hn, hv]
  · simp [hn, hv]
  · have hreject := classify_step_eq_reject_iff hm hp hc elapsed
    have hsuspect := classify_step_eq_suspect_iff hm hp hc elapsed
    simp only [hn, hv, Option.mem_some_iff, forall_eq', exists_eq_left']
    cases hverdict : m.classify (some p) c elapsed with
    | accept =>
        rw [hverdict] at hreject hsuspect
        simp only [reduceCtorEq, false_iff, true_iff] at hreject hsuspect ⊢
        exact ⟨hreject, fun hleaps => hsuspect ⟨hreject, hleaps⟩⟩
    | reject => simp [hreject.mp hverdict]
    | suspect => simp [(hsuspect.mp hverdict).2]

theorem classify_exact (hm : m.validate = .ok ()) (hp : ∀ p ∈ previous, m.domain.Member p)
    (candidate : FieldValue) (elapsed : Nat) :
    (m.classify previous candidate elapsed = .reject ↔
      m.normalize candidate = none ∨
        ∃ p ∈ previous, ∃ c ∈ m.normalize candidate, m.Falls p c) ∧
    (m.classify previous candidate elapsed = .suspect ↔
      m.classify previous candidate elapsed ≠ .reject ∧
        ∃ p ∈ previous, ∃ c ∈ m.normalize candidate, m.Leaps p c elapsed) ∧
    (m.classify previous candidate elapsed = .accept ↔
      ∃ c ∈ m.normalize candidate,
        ∀ p ∈ previous, ¬ m.Falls p c ∧ ¬ m.Leaps p c elapsed) ∧
    (m.monotonicity ≠ .free → ∀ p ∈ previous, ∀ c ∈ m.normalize candidate,
      (m.domain.rank? p).isSome = true ∧ (m.domain.rank? c).isSome = true) ∧
    (∀ c ∈ m.normalize candidate,
      m.classify previous candidate elapsed = m.classify previous c elapsed) ∧
    (m.classify previous candidate elapsed = .accept → ∀ later, elapsed ≤ later →
      m.classify previous candidate later = .accept) := by
  refine ⟨?reject, ?suspect, classify_eq_accept_iff hm hp, ?ranked, ?normalized, ?stays⟩
  case reject =>
    rcases classify_cases hp candidate with
      ⟨hn, hv⟩ | ⟨⟨c, hn⟩, rfl, hv⟩ | ⟨p, c, hn, rfl, hp, hc, hv⟩
    · simp [hn, hv]
    · simp [hn, hv]
    · simp [hn, hv, classify_step_eq_reject_iff hm hp hc]
  case suspect =>
    rcases classify_cases hp candidate with
      ⟨hn, hv⟩ | ⟨⟨c, hn⟩, rfl, hv⟩ | ⟨p, c, hn, rfl, hp, hc, hv⟩
    · simp [hn, hv]
    · simp [hn, hv]
    · simp [hn, hv, classify_step_eq_suspect_iff hm hp hc, classify_step_eq_reject_iff hm hp hc]
  case ranked =>
    intro hrule p hprevious c hc
    have ho := ordered_of_ne_free hm hrule
    obtain ⟨rp, hrp⟩ := Domain.exists_rank ho (hp p hprevious)
    obtain ⟨rc, hrc⟩ := Domain.exists_rank ho (Domain.member_of_normalize hc)
    rw [hrp, hrc]
    exact ⟨rfl, rfl⟩
  case normalized =>
    intro c hc
    exact classify_normalized hc
  case stays =>
    intro haccept later hle
    rw [classify_eq_accept_iff hm hp] at haccept ⊢
    obtain ⟨c, hc, hallowed⟩ := haccept
    refine ⟨c, hc, ?_⟩
    intro p hprevious
    obtain ⟨hfalls, hleaps⟩ := hallowed p hprevious
    exact ⟨hfalls, fun hlate => hleaps (hlate.earlier hm hle)⟩

theorem classify_exact_clock :
    ∃ m : FieldModel, m.validate = .ok () ∧ m.domain.Member (.int 300) ∧
      m.classify (some (.int 300)) (.text "4:59") 10 = .reject ∧
      m.classify (some (.int 300)) (.text "5:21") 10 = .suspect ∧
      m.classify (some (.int 300)) (.text " 320 ") 10 = .accept ∧
      ∀ later, 10 ≤ later → m.classify (some (.int 300)) (.text " 320 ") later = .accept := by
  have hm : (FieldModel.new "clock" .timer (.nonDecreasing (some 2))).validate = .ok () := rfl
  have hp : ∀ p ∈ some (FieldValue.int 300), Domain.timer.Member p := by
    rintro p ⟨⟩
    rfl
  have hexact := fun s => classify_exact hm hp (.text s) 10
  have hstays := (hexact " 320 ").2.2.2.2.2 (by decide)
  exact ⟨_, hm, hp _ rfl, by decide, by decide, by decide, hstays⟩

end GameTimeline.FieldModel
