import GameTimeline.Proofs.Decimal.Interval
import Mathlib.Data.Nat.Cast.Order.Field

namespace GameTimeline.Decimal

theorem cast_scaleUp (n : ℕ) (q : ℤ) : (scaleUp n q : ℚ) = n * 2 ^ q.toNat := by
  simp [scaleUp, Nat.shiftLeft_eq]

theorem cast_pow_ten (k : ℕ) : ((Nat.pow 10 k : ℕ) : ℚ) = 10 ^ k :=
  Nat.cast_pow 10 k

theorem zpow_mul_pow_toNat {a : ℚ} (ha : a ≠ 0) (k : ℤ) :
    a ^ k * a ^ (-k).toNat = a ^ k.toNat := by
  rw [← zpow_natCast, ← zpow_natCast, ← zpow_add₀ ha]
  congr 1
  omega

namespace Binary

variable {b : Binary} {c d n : ℕ} {g : ℤ} {tie : Tie}

def common (b : Binary) (g : ℤ) : ℚ := 2 ^ (-(b.exponent - 2)).toNat * 10 ^ (-g).toNat

theorem common_pos (b : Binary) (g : ℤ) : 0 < b.common g := by
  rw [common]
  positivity

theorem cast_quarters (b : Binary) (n : ℕ) (g : ℤ) :
    ((scaleUp n (b.exponent - 2) * Nat.pow 10 (-g).toNat : ℕ) : ℚ) =
      n / 4 * 2 ^ b.exponent * b.common g := by
  have hquarter : (2 : ℚ) ^ b.exponent = 2 ^ (b.exponent - 2) * 4 := by
    rw [zpow_sub₀ (by norm_num)]
    norm_num
  rw [Nat.cast_mul, cast_scaleUp, cast_pow_ten, ← zpow_mul_pow_toNat (by norm_num), hquarter,
    common]
  ring

theorem cast_decimal (b : Binary) (c : ℕ) (g : ℤ) :
    ((c * (scaleUp 1 (-(b.exponent - 2)) * Nat.pow 10 g.toNat) : ℕ) : ℚ) =
      c * 10 ^ g * b.common g := by
  have hten : (10 : ℚ) ^ g * 10 ^ (-g).toNat = 10 ^ g.toNat := zpow_mul_pow_toNat (by norm_num) g
  rw [Nat.cast_mul, Nat.cast_mul, cast_scaleUp, cast_pow_ten, common, ← hten]
  push_cast
  ring

theorem quarters_le_iff (b : Binary) (n c : ℕ) (g : ℤ) :
    scaleUp n (b.exponent - 2) * Nat.pow 10 (-g).toNat ≤
        c * (scaleUp 1 (-(b.exponent - 2)) * Nat.pow 10 g.toNat) ↔
      (n : ℚ) / 4 * 2 ^ b.exponent ≤ c * 10 ^ g := by
  rw [← Nat.cast_le (α := ℚ), cast_quarters, cast_decimal,
    mul_le_mul_iff_of_pos_right (b.common_pos g)]

theorem le_quarters_iff (b : Binary) (n c : ℕ) (g : ℤ) :
    c * (scaleUp 1 (-(b.exponent - 2)) * Nat.pow 10 g.toNat) ≤
        scaleUp n (b.exponent - 2) * Nat.pow 10 (-g).toNat ↔
      (c : ℚ) * 10 ^ g ≤ n / 4 * 2 ^ b.exponent := by
  rw [← Nat.cast_le (α := ℚ), cast_quarters, cast_decimal,
    mul_le_mul_iff_of_pos_right (b.common_pos g)]

theorem low_eq (hpos : 0 < b.mantissa) : b.low =
    ((if b.halfGapBelow then 4 * b.mantissa - 1 else 4 * b.mantissa - 2 : ℕ) : ℚ) / 4 *
      2 ^ b.exponent := by
  rw [low, below]
  split
  · rw [Nat.cast_sub (by omega)]
    push_cast
    ring
  · rw [Nat.cast_sub (by omega)]
    push_cast
    ring

theorem high_eq (b : Binary) :
    b.high = ((4 * b.mantissa + 2 : ℕ) : ℚ) / 4 * 2 ^ b.exponent := by
  rw [high]
  push_cast
  ring

theorem value_eq (b : Binary) : b.value = ((4 * b.mantissa : ℕ) : ℚ) / 4 * 2 ^ b.exponent := by
  rw [value]
  push_cast
  ring

theorem quarters_lt_iff (b : Binary) (n c : ℕ) (g : ℤ) :
    scaleUp n (b.exponent - 2) * Nat.pow 10 (-g).toNat <
        c * (scaleUp 1 (-(b.exponent - 2)) * Nat.pow 10 g.toNat) ↔
      (n : ℚ) / 4 * 2 ^ b.exponent < c * 10 ^ g := by
  rw [← not_le, ← not_le, le_quarters_iff]

theorem lt_quarters_iff (b : Binary) (n c : ℕ) (g : ℤ) :
    c * (scaleUp 1 (-(b.exponent - 2)) * Nat.pow 10 g.toNat) <
        scaleUp n (b.exponent - 2) * Nat.pow 10 (-g).toNat ↔
      (c : ℚ) * 10 ^ g < n / 4 * 2 ^ b.exponent := by
  rw [← not_le, ← not_le, quarters_le_iff]

theorem holds_iff (hpos : 0 < b.mantissa) (g : ℤ) (c : ℕ) :
    (b.span.inUnits g).holds c = true ↔ b.Covers (c * 10 ^ g) := by
  simp only [Span.holds, Span.inUnits, span]
  rcases Nat.mod_two_eq_zero_or_one b.mantissa with heven | hodd
  · simp only [heven, decide_true, if_true, Bool.and_eq_true, decide_eq_true_eq,
      quarters_le_iff, le_quarters_iff, ← low_eq hpos, ← high_eq]
    refine ⟨fun h => ⟨h.1, h.2, ?_⟩, fun h => ⟨h.low_le, h.le_high⟩⟩
    intro hodd
    omega
  · simp only [hodd, Nat.one_ne_zero, decide_false, Bool.false_eq_true, if_false,
      Bool.and_eq_true, decide_eq_true_eq, quarters_lt_iff, lt_quarters_iff, ← low_eq hpos,
      ← high_eq]
    exact ⟨fun h => covers_of_lt h.1 h.2, fun h => h.inside hodd⟩

theorem cast_span_value (b : Binary) : (b.span.value : ℚ) = b.value * b.span.den := by
  have hvalue := cast_quarters b (4 * b.mantissa) 0
  have hden := cast_decimal b 1 0
  rw [← value_eq] at hvalue
  simp only [Nat.cast_one, zpow_zero, one_mul, mul_one, Int.toNat_zero, Nat.pow_eq, pow_zero,
    Int.neg_zero] at hvalue hden
  rw [span, hvalue, hden]

theorem span_den_pos (b : Binary) : 0 < b.span.den := by
  simp [span, scaleUp, Nat.shiftLeft_eq]

end Binary

namespace Span

variable {s : Span} {d k n left : ℕ} {lead g : ℤ} {tie : Tie}

theorem holds_of_whole? (h : s.whole? tie = some d) : s.holds d = true := by
  simp only [whole?] at h
  split at h
  · rename_i hlow hhigh
    split at h
    · cases h
      exact hlow
    · split at h
      · cases h
        exact hhigh
      · split at h
        · cases h
          exact hlow
        · cases h
          exact hhigh
  · rename_i hlow _
    cases h
    exact hlow
  · rename_i _ hhigh
    cases h
    exact hhigh
  · cases h

theorem holds_eq_false_of_whole? (h : s.whole? tie = none) :
    s.holds (s.value / s.den) = false ∧ s.holds (s.value / s.den + 1) = false := by
  simp only [whole?] at h
  split at h
  · split at h
    · cases h
    · split at h
      · cases h
      · split at h <;> cases h
  · cases h
  · cases h
  · rename_i hlow hhigh
    exact ⟨hlow, hhigh⟩

theorem holds_shortestFrom (hlow : n ≤ k) (hhigh : k < n + left)
    (h : (s.inUnits (lead - k + 1)).whole? tie ≠ none) :
    (s.inUnits (s.shortestFrom tie lead left n).2).holds
      (s.shortestFrom tie lead left n).1 = true := by
  induction left generalizing n with
  | zero => omega
  | succ left ih =>
      rw [shortestFrom]
      split
      · rename_i d hd
        exact holds_of_whole? hd
      · rename_i hnone
        have hne : n ≠ k := by
          rintro rfl
          exact h hnone
        exact ih (by omega) (by omega)

end Span

namespace Binary

variable {b : Binary} {g : ℤ} {tie : Tie}

def units (b : Binary) (g : ℤ) : ℕ := (b.span.inUnits g).value / (b.span.inUnits g).den

theorem units_le (b : Binary) (g : ℤ) : b.units g * 10 ^ g ≤ b.value := by
  rw [value_eq, ← le_quarters_iff]
  exact Nat.div_mul_le_self _ _

theorem lt_units_succ (b : Binary) (g : ℤ) : b.value < (b.units g + 1 : ℕ) * 10 ^ g := by
  rw [value_eq, ← quarters_lt_iff, Nat.mul_comm (b.units g + 1)]
  exact Nat.lt_mul_div_succ _ (Nat.mul_pos b.span_den_pos (Nat.pow_pos (by decide)))

theorem whole?_ne_none (hpos : 0 < b.mantissa) (hfine : (10 : ℚ) ^ g < b.high - b.low) :
    (b.span.inUnits g).whole? tie ≠ none := by
  intro hnone
  obtain ⟨hdown, hup⟩ := Span.holds_eq_false_of_whole? hnone
  have hlow : b.units g * 10 ^ g ≤ b.low := by
    by_contra hin
    have hcovers : b.Covers (b.units g * 10 ^ g) :=
      covers_of_lt (not_le.mp hin) ((b.units_le g).trans_lt b.value_lt_high)
    rw [← holds_iff hpos, units, hdown] at hcovers
    cases hcovers
  have hhigh : b.high ≤ (b.units g + 1 : ℕ) * 10 ^ g := by
    by_contra hin
    have hcovers : b.Covers ((b.units g + 1 : ℕ) * 10 ^ g) :=
      covers_of_lt (b.low_lt_value.trans (b.lt_units_succ g)) (not_le.mp hin)
    rw [← holds_iff hpos, units, hup] at hcovers
    cases hcovers
  push_cast at hhigh
  linarith

end Binary

theorem pow_digitCount_le {n : ℕ} (h : 0 < n) : 10 ^ (digitCount n - 1) ≤ n := by
  rcases Nat.eq_zero_or_pos (digitCount n - 1) with hone | hmore
  · rw [hone]
    exact h
  · by_contra hlt
    have hlength : digitCount n ≤ digitCount n - 1 :=
      (Nat.length_toDigits_le_iff (by decide) hmore).mpr (not_le.mp hlt)
    omega

theorem lt_pow_digitCount (n : ℕ) : n < 10 ^ digitCount n :=
  (Nat.length_toDigits_le_iff (by decide) Nat.length_toDigits_pos).mp le_rfl

theorem zpow_neg_le_div {num den t : ℕ} (hden : 0 < den) (h : den ≤ num * 10 ^ t) :
    (10 : ℚ) ^ (-t : ℤ) ≤ num / den := by
  have hdenq : (0 : ℚ) < den := Nat.cast_pos.mpr hden
  have hten : (0 : ℚ) < 10 ^ t := by positivity
  have hcast : (den : ℚ) ≤ num * 10 ^ t := by exact_mod_cast h
  rw [zpow_neg, zpow_natCast, le_div_iff₀ hdenq, inv_mul_le_iff₀ hten, mul_comm]
  exact hcast

theorem pow_leadingExponent_le {num den : ℕ} (hnum : 0 < num) (hden : 0 < den) :
    (10 : ℚ) ^ leadingExponent num den ≤ num / den := by
  rw [leadingExponent]
  split
  · rename_i hle
    have hq : 0 < num / den := Nat.div_pos hle hden
    have hcount : 0 < digitCount (num / den) := Nat.length_toDigits_pos
    have hexp : (digitCount (num / den) : ℤ) - 1 = ((digitCount (num / den) - 1 : ℕ) : ℤ) := by
      omega
    calc (10 : ℚ) ^ ((digitCount (num / den) : ℤ) - 1)
        = ((10 ^ (digitCount (num / den) - 1) : ℕ) : ℚ) := by
          rw [hexp, zpow_natCast]
          push_cast
          rfl
      _ ≤ ((num / den : ℕ) : ℚ) := Nat.cast_le.mpr (pow_digitCount_le hq)
      _ ≤ num / den := Nat.cast_div_le
  · have hcount : 0 < digitCount (den / num) := Nat.length_toDigits_pos
    have hexp : ((digitCount (den / num) : ℤ) - 1) = ((digitCount (den / num) - 1 : ℕ) : ℤ) := by
      omega
    simp only
    split
    · rename_i hpow
      rw [hexp]
      exact zpow_neg_le_div hden hpow.ge
    · apply zpow_neg_le_div hden
      calc den ≤ num * (den / num + 1) := (Nat.lt_mul_div_succ den hnum).le
        _ ≤ num * 10 ^ digitCount (den / num) := Nat.mul_le_mul_left _ (lt_pow_digitCount _)

namespace Binary

variable {b : Binary} {n : ℕ} {tie : Tie}

structure Narrow (b : Binary) : Prop where
  pos : 0 < b.mantissa
  lt : b.mantissa < 9007199254740992
  least : b.halfGapBelow = true → b.mantissa = 4503599627370496

theorem narrow_ofBits (hpos : 0 < n) : (ofBits n).Narrow := by
  rcases bits_cases n with h | ⟨e, m, h, rfl⟩
  · rw [ofBits_of_lt h]
    exact ⟨hpos, h.trans (by decide), nofun⟩
  · rw [ofBits_add h]
    refine ⟨by simp only; omega, by simp only; omega, fun hgap => ?_⟩
    obtain ⟨hzero, -⟩ := Bool.and_eq_true_iff.mp hgap
    rw [decide_eq_true_eq] at hzero
    simp only
    omega

theorem sixteen_digits_fine (h : b.Narrow) : b.value * 10 ^ (-16 : ℤ) < b.high - b.low := by
  have hwidth : b.high - b.low = (1 / 2 + b.below) * 2 ^ b.exponent := by
    rw [high, low]
    ring
  have hmantissa : (b.mantissa : ℚ) * 10 ^ (-16 : ℤ) < 1 / 2 + b.below := by
    rw [below]
    split
    · rename_i hgap
      rw [h.least hgap]
      norm_num
    · have hlt : (b.mantissa : ℚ) < 9007199254740992 := by exact_mod_cast h.lt
      norm_num
      linarith
  calc b.value * 10 ^ (-16 : ℤ) = b.mantissa * 10 ^ (-16 : ℤ) * 2 ^ b.exponent := by
        rw [value]
        ring
    _ < (1 / 2 + b.below) * 2 ^ b.exponent := mul_lt_mul_of_pos_right hmantissa b.pow_pos
    _ = b.high - b.low := hwidth.symm

theorem value_pos (h : 0 < b.mantissa) : 0 < b.value :=
  mul_pos (Nat.cast_pos.mpr h) b.pow_pos

theorem pow_lead_le (h : 0 < b.mantissa) :
    (10 : ℚ) ^ leadingExponent b.span.value b.span.den ≤ b.value := by
  have hden : (0 : ℚ) < b.span.den := Nat.cast_pos.mpr b.span_den_pos
  have hvalue : (b.span.value : ℚ) / b.span.den = b.value := by
    rw [cast_span_value, mul_div_cancel_right₀ _ hden.ne']
  have hpos : 0 < b.span.value := by
    have hcast : (0 : ℚ) < b.span.value := by
      rw [cast_span_value]
      exact mul_pos (value_pos h) hden
    exact_mod_cast hcast
  rw [← hvalue]
  exact pow_leadingExponent_le hpos b.span_den_pos

theorem covers_shortest (h : b.Narrow) (tie : Tie) :
    b.Covers ((b.shortest double tie).1 * 10 ^ (b.shortest double tie).2) := by
  rw [← holds_iff h.pos]
  refine Span.holds_shortestFrom (k := 17) (by decide) (by decide) (whole?_ne_none h.pos ?_)
  generalize hlead : leadingExponent b.span.value b.span.den = lead
  have hexp : lead - (17 : ℕ) + 1 = lead + -16 := by
    push_cast
    ring
  calc (10 : ℚ) ^ (lead - (17 : ℕ) + 1) = 10 ^ lead * 10 ^ (-16 : ℤ) := by
        rw [hexp, zpow_add₀ (by norm_num)]
    _ ≤ b.value * 10 ^ (-16 : ℤ) := by
        rw [← hlead]
        exact mul_le_mul_of_nonneg_right (pow_lead_le h.pos) (by positivity)
    _ < b.high - b.low := sixteen_digits_fine h

end Binary

end GameTimeline.Decimal
