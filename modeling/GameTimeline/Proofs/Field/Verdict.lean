import GameTimeline.Field.ModelSet
import GameTimeline.Proofs.Field.Member
import GameTimeline.Proofs.Table
import Mathlib.Algebra.Order.Group.Unbundled.Int

namespace GameTimeline

namespace FieldModel

theorem validate_eq_ok_iff {m : FieldModel} :
    m.validate = .ok () ↔ m.checkDomain = .ok () ∧ m.checkMonotonicity = .ok () ∧
      m.checkWindow = .ok () ∧ m.checkConfidence = .ok () ∧ m.checkTerminal = .ok () := by
  simp only [validate, seq_eq_ok_iff]

theorem checkWindow_eq_ok_iff {m : FieldModel} :
    m.checkWindow = .ok () ↔ 0 < m.window ∧ 0 < m.majority ∧ m.majority ≤ m.window := by
  rw [checkWindow]
  split
  · simp only [reduceCtorEq, false_iff]
    omega
  · simp only [true_iff]
    omega

theorem checkBound_eq_ok_iff {m : FieldModel} {d : Int64} :
    m.checkBound d = .ok () ↔ m.domain.isNumeric = true ∧ 0 ≤ d.toInt := by
  have hneg : d < 0 ↔ d.toInt < 0 := Int64.lt_iff_toInt_lt
  rw [checkBound]
  split
  · simp_all
  · split
    · simp_all
    · simp_all

theorem window_pos {m : FieldModel} (h : m.validate = .ok ()) : 0 < m.window :=
  (checkWindow_eq_ok_iff.mp (validate_eq_ok_iff.mp h).2.2.1).1

theorem majority_pos {m : FieldModel} (h : m.validate = .ok ()) : 0 < m.majority :=
  (checkWindow_eq_ok_iff.mp (validate_eq_ok_iff.mp h).2.2.1).2.1

theorem bound_sound {m : FieldModel} (h : m.validate = .ok ()) {d : Int64}
    (hd : m.monotonicity.bound? = some d) : m.domain.isNumeric = true ∧ 0 ≤ d.toInt := by
  have hm := (validate_eq_ok_iff.mp h).2.1
  rw [checkMonotonicity] at hm
  split at hm <;> rename_i hk <;> rw [hk] at hd
  · cases hd
  · cases hd
  · cases hd
    exact checkBound_eq_ok_iff.mp hm
  · cases hd
    exact checkBound_eq_ok_iff.mp hm

theorem ordered_of_nonDecreasing {m : FieldModel} (h : m.validate = .ok ()) {b : Option Int64}
    (hb : m.monotonicity = .nonDecreasing b) : m.domain.isOrdered = true := by
  cases b with
  | some d => exact Domain.isOrdered_of_isNumeric (bound_sound h (d := d) (by rw [hb]; rfl)).1
  | none =>
      have hm := (validate_eq_ok_iff.mp h).2.1
      simp only [checkMonotonicity, hb] at hm
      split at hm
      · assumption
      · cases hm

theorem judge_eq_reject_iff {m : FieldModel} {p c : Int} {elapsed : Nat} :
    m.judge p c elapsed = .reject ↔ (∃ b, m.monotonicity = .nonDecreasing b) ∧ c < p := by
  rw [judge]
  cases m.monotonicity with
  | free => simp
  | boundedDelta d => by_cases ht : m.maxGap < elapsed || withinBound p c d elapsed <;> simp [ht]
  | nonDecreasing b =>
      by_cases hlt : c < p
      · simp [hlt]
      · cases b with
        | none => simp [hlt]
        | some d =>
            by_cases ht : m.maxGap < elapsed || withinBound p c d elapsed <;> simp [hlt, ht]

theorem tolerable_of_judge {m : FieldModel} {p c : Int} {elapsed : Nat}
    (h : m.judge p c elapsed = .accept) {d : Int64} (hd : m.monotonicity.bound? = some d) :
    m.maxGap < elapsed ∨ withinBound p c d elapsed = true := by
  by_contra hno
  rw [not_or] at hno
  rw [judge] at h
  cases hm : m.monotonicity with
  | free => simp [hm, Monotonicity.bound?] at hd
  | boundedDelta e =>
      obtain rfl : e = d := by simpa [hm, Monotonicity.bound?] using hd
      simp [hm, hno] at h
  | nonDecreasing b =>
      obtain rfl : b = some d := by simpa [hm, Monotonicity.bound?] using hd
      simp only [hm] at h
      split at h
      · cases h
      · simp [hno] at h

theorem withinBound_le {p c : Int} {d : Int64} {elapsed : Nat} (hd : 0 ≤ d.toInt)
    (h : withinBound p c d elapsed = true) : |c - p| ≤ d.toInt * elapsed := by
  have hle : (c - p).natAbs ≤ d.toInt.toNat * elapsed :=
    (of_decide_eq_true h).trans (Nat.min_le_left _ _)
  have hcast : d.toInt * elapsed = ((d.toInt.toNat * elapsed : Nat) : Int) := by
    rw [Int.natCast_mul, Int.toNat_of_nonneg hd]
  rw [hcast, Int.abs_eq_natAbs]
  exact_mod_cast hle

theorem classify_some {m : FieldModel} {p c : FieldValue} {rp rc : Int}
    (hc : m.domain.Member c) (hrp : m.domain.rank? p = some rp) (hrc : m.domain.rank? c = some rc)
    (elapsed : Nat) : m.classify (some p) c elapsed = m.judge rp rc elapsed := by
  have hn : m.normalize c = some c := hc
  simp [classify, hn, hrp, hrc]

theorem classify_ne_reject_of {m : FieldModel} {p : Option FieldValue} {c : FieldValue}
    {elapsed : Nat} (h : m.classify p c elapsed ≠ .reject) (later : Nat) :
    m.classify p c later ≠ .reject := by
  simp only [classify] at h ⊢
  split at h
  · exact absurd rfl h
  · split at h
    · simp
    · split at h
      · intro hr
        exact h (judge_eq_reject_iff.mpr (judge_eq_reject_iff.mp hr))
      · simp

theorem atMost_of_classify {m : FieldModel} (hm : m.validate = .ok ()) {b : Option Int64}
    (hb : m.monotonicity = .nonDecreasing b) {p c : FieldValue} (hp : m.domain.Member p)
    (hc : m.domain.Member c) {elapsed : Nat} (h : m.classify (some p) c elapsed ≠ .reject) :
    m.domain.AtMost p c := by
  have ho := ordered_of_nonDecreasing hm hb
  obtain ⟨rp, hrp⟩ := Domain.exists_rank ho hp
  obtain ⟨rc, hrc⟩ := Domain.exists_rank ho hc
  refine ⟨rp, rc, hrp, hrc, ?_⟩
  by_contra hlt
  rw [classify_some hc hrp hrc] at h
  exact h (judge_eq_reject_iff.mpr ⟨⟨b, hb⟩, Int.not_le.mp hlt⟩)

theorem near_of_classify {m : FieldModel} (hm : m.validate = .ok ()) {d : Int64}
    (hd : m.monotonicity.bound? = some d) {p c : FieldValue} (hp : m.domain.Member p)
    (hc : m.domain.Member c) {elapsed : Nat} (h : m.classify (some p) c elapsed = .accept) :
    m.maxGap < elapsed ∨ ∃ rp rc, m.domain.rank? p = some rp ∧ m.domain.rank? c = some rc ∧
      |rc - rp| ≤ d.toInt * elapsed := by
  obtain ⟨hnum, hpos⟩ := bound_sound hm hd
  have ho := Domain.isOrdered_of_isNumeric hnum
  obtain ⟨rp, hrp⟩ := Domain.exists_rank ho hp
  obtain ⟨rc, hrc⟩ := Domain.exists_rank ho hc
  rw [classify_some hc hrp hrc] at h
  rcases tolerable_of_judge h hd with hgap | hnear
  · exact .inl hgap
  · exact .inr ⟨rp, rc, hrp, hrc, withinBound_le hpos hnear⟩

end FieldModel

namespace ModelSet

variable {s : ModelSet} {n : String} {m : FieldModel}

theorem validate_of_get? (h : s.get? n = some m) : m.validate = .ok () :=
  s.valid _ (Table.get?_eq_some_iff.mp h)

theorem name_of_get? (h : s.get? n = some m) : m.name = n :=
  s.named _ (Table.get?_eq_some_iff.mp h)

theorem mem_names_iff : n ∈ s.names ↔ ∃ m, s.get? n = some m :=
  Table.mem_keys_iff

def single (m : FieldModel) (h : m.validate = .ok ()) : ModelSet where
  models := ⟨[(m.name, m)], List.pairwise_singleton ..⟩
  named _ he := List.mem_singleton.mp he ▸ rfl
  valid _ he := List.mem_singleton.mp he ▸ h
  nonempty := by simp

end ModelSet

end GameTimeline
