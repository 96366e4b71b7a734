import GameTimeline.Proofs.Field.Verdict

namespace GameTimeline

theorem Domain.rank_eq_toInt {d : Domain} (hd : d.isNumeric = true) {v : FieldValue} {r : Int}
    (h : d.rank? v = some r) : ∃ n : Int64, r = n.toInt := by
  cases d with
  | nonNegative =>
      cases v with
      | int n => exact ⟨n, (Option.some.inj h).symm⟩
      | _ => cases h
  | bounded min max =>
      cases v with
      | int n => exact ⟨n, (Option.some.inj h).symm⟩
      | _ => cases h
  | timer =>
      cases v with
      | int n => exact ⟨n, (Option.some.inj h).symm⟩
      | _ => cases h
  | labels values => cases hd
  | flag => cases hd
  | text => cases hd

namespace FieldModel

variable {m : FieldModel} {p c : FieldValue} {elapsed : Nat}

def Near (m : FieldModel) (u v : Reading) (elapsed : Nat) : Prop :=
  ∀ d p c rp rc, m.monotonicity.bound? = some d → u = some p → v = some c →
    m.domain.rank? p = some rp → m.domain.rank? c = some rc →
    |rc - rp| ≤ d.toInt * elapsed ∨ m.maxGap < elapsed

theorem near_iff {u v : Reading} : m.Near u v elapsed ↔
    m.monotonicity.bound?.all fun d => decide (∀ p ∈ u, ∀ c ∈ v, ∀ rp ∈ m.domain.rank? p,
      ∀ rc ∈ m.domain.rank? c, |rc - rp| ≤ d.toInt * elapsed ∨ m.maxGap < elapsed) := by
  simp only [Option.all_eq_true, decide_eq_true_eq]
  exact ⟨fun h d hd p hp c hc rp hrp rc hrc => h d p c rp rc hd hp hc hrp hrc,
    fun h d p c rp rc hd hp hc hrp hrc => h d hd p hp c hc rp hrp rc hrc⟩

instance (u v : Reading) (elapsed : Nat) : Decidable (m.Near u v elapsed) :=
  decidable_of_iff _ near_iff.symm

theorem withinBound_of_le {p c d : Int64} (hd : 0 ≤ d.toInt)
    (h : |c.toInt - p.toInt| ≤ d.toInt * elapsed) :
    withinBound p.toInt c.toInt d elapsed = true := by
  have hcast : d.toInt * elapsed = ((d.toInt.toNat * elapsed : Nat) : Int) := by
    rw [Int.natCast_mul, Int.toNat_of_nonneg hd]
  rw [hcast, Int.abs_eq_natAbs] at h
  have hword : (c.toInt - p.toInt).natAbs ≤ Text.maxWord := by
    have hp := p.toInt_lt
    have hp' := p.le_toInt
    have hc := c.toInt_lt
    have hc' := c.le_toInt
    rw [Text.maxWord, UInt64.size]
    omega
  rw [withinBound, allowance, decide_eq_true_eq]
  exact le_min (by exact_mod_cast h) hword

theorem judge_eq_suspect {p c : Int} (h : m.judge p c elapsed = .suspect) :
    ∃ d, m.monotonicity.bound? = some d ∧ elapsed ≤ m.maxGap ∧
      withinBound p c d elapsed = false := by
  have split {d : Int64} (h : (if m.maxGap < elapsed || withinBound p c d elapsed then
      Verdict.accept else .suspect) = .suspect) :
      elapsed ≤ m.maxGap ∧ withinBound p c d elapsed = false := by
    by_cases ht : (m.maxGap < elapsed || withinBound p c d elapsed) = true
    · simp [ht] at h
    · simpa using ht
  rw [judge] at h
  cases hm : m.monotonicity with
  | free => simp [hm] at h
  | boundedDelta d =>
      simp only [hm] at h
      exact ⟨d, rfl, split h⟩
  | nonDecreasing b =>
      simp only [hm] at h
      split at h
      · cases h
      · cases b with
        | none => cases h
        | some d => exact ⟨d, rfl, split h⟩

theorem classify_eq (hc : m.domain.Member c) (elapsed : Nat) :
    m.classify (some p) c elapsed = .accept ∨ ∃ rp rc, m.domain.rank? p = some rp ∧
      m.domain.rank? c = some rc ∧ m.classify (some p) c elapsed = m.judge rp rc elapsed := by
  have hn : m.normalize c = some c := hc
  cases hrp : m.domain.rank? p with
  | none => exact .inl (by simp [classify, hn, hrp])
  | some rp =>
      cases hrc : m.domain.rank? c with
      | none => exact .inl (by simp [classify, hn, hrp, hrc])
      | some rc => exact .inr ⟨rp, rc, rfl, rfl, classify_some hc hrp hrc elapsed⟩

theorem classify_ne_suspect_of_near (hm : m.validate = .ok ()) (hc : m.domain.Member c) {step : Nat}
    (hle : step ≤ elapsed) (hnear : m.Near (some p) (some c) step) :
    m.classify (some p) c elapsed ≠ .suspect := by
  intro h
  rcases classify_eq (p := p) hc elapsed with haccept | ⟨rp, rc, hrp, hrc, hjudge⟩
  · cases haccept.symm.trans h
  · obtain ⟨d, hd, hgap, hout⟩ := judge_eq_suspect (hjudge.symm.trans h)
    obtain ⟨hnum, hpos⟩ := bound_sound hm hd
    rcases hnear d p c rp rc hd rfl rfl hrp hrc with hclose | hfar
    · obtain ⟨p', rfl⟩ := Domain.rank_eq_toInt hnum hrp
      obtain ⟨c', rfl⟩ := Domain.rank_eq_toInt hnum hrc
      have hmono : d.toInt * (step : Int) ≤ d.toInt * elapsed :=
        Int.mul_le_mul_of_nonneg_left (by exact_mod_cast hle) hpos
      have hin : withinBound p'.toInt c'.toInt d elapsed = true :=
        withinBound_of_le hpos (hclose.trans hmono)
      cases hin.symm.trans hout
    · omega

theorem classify_self_ne_suspect (hm : m.validate = .ok ()) (hc : m.domain.Member c)
    (elapsed : Nat) : m.classify (some c) c elapsed ≠ .suspect := by
  refine classify_ne_suspect_of_near hm hc (Nat.le_refl _) ?_
  intro d p c rp rc hd hp hc hrp hrc
  obtain rfl := Option.some.inj (hp.symm.trans hc)
  obtain rfl := Option.some.inj (hrp.symm.trans hrc)
  rw [Int.sub_self, abs_zero]
  exact .inl (Int.mul_nonneg (bound_sound hm hd).2 (Int.natCast_nonneg _))

theorem classify_eq_accept_of_near (hm : m.validate = .ok ()) (hc : m.domain.Member c)
    (hrise : ∀ b, m.monotonicity = .nonDecreasing b → m.domain.AtMost p c)
    (hnear : m.Near (some p) (some c) elapsed) : m.classify (some p) c elapsed = .accept := by
  have hsuspect := classify_ne_suspect_of_near hm hc (Nat.le_refl _) hnear
  rcases classify_eq (p := p) hc elapsed with haccept | ⟨rp, rc, hrp, hrc, hjudge⟩
  · exact haccept
  · have hreject : m.classify (some p) c elapsed ≠ .reject := by
      rw [hjudge]
      intro h
      obtain ⟨⟨b, hb⟩, hlt⟩ := judge_eq_reject_iff.mp h
      exact absurd ((hrise b hb).le hrp hrc) (Int.not_le.mpr hlt)
    cases hv : m.classify (some p) c elapsed with
    | accept => rfl
    | reject => exact absurd hv hreject
    | suspect => exact absurd hv hsuspect

end FieldModel

end GameTimeline
