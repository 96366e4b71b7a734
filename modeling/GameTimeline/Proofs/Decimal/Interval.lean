import GameTimeline.Decimal.Shortest
import Mathlib.Tactic.FieldSimp
import Mathlib.Tactic.Linarith
import Mathlib.Tactic.NormNum
import Mathlib.Tactic.Positivity
import Mathlib.Tactic.Ring
import Mathlib.Algebra.Order.Field.Rat
import Mathlib.Algebra.Order.Field.Power
import Mathlib.Order.Monotone.Basic

namespace GameTimeline.Decimal

namespace Binary

variable {b : Binary} {x : ℚ} {n m : ℕ}

def value (b : Binary) : ℚ := b.mantissa * 2 ^ b.exponent

def below (b : Binary) : ℚ := if b.halfGapBelow then 1 / 4 else 1 / 2

def low (b : Binary) : ℚ := (b.mantissa - b.below) * 2 ^ b.exponent

def high (b : Binary) : ℚ := (b.mantissa + 1 / 2) * 2 ^ b.exponent

structure Covers (b : Binary) (x : ℚ) : Prop where
  low_le : b.low ≤ x
  le_high : x ≤ b.high
  inside : b.mantissa % 2 = 1 → b.low < x ∧ x < b.high

theorem pow_pos (b : Binary) : (0 : ℚ) < 2 ^ b.exponent := by
  positivity

theorem below_pos (b : Binary) : 0 < b.below := by
  rw [below]
  split <;> norm_num

theorem low_lt_value (b : Binary) : b.low < b.value :=
  mul_lt_mul_of_pos_right (sub_lt_self _ b.below_pos) b.pow_pos

theorem value_lt_high (b : Binary) : b.value < b.high :=
  mul_lt_mul_of_pos_right (lt_add_of_pos_right _ (by norm_num)) b.pow_pos

theorem covers_of_lt (hlow : b.low < x) (hhigh : x < b.high) : b.Covers x :=
  ⟨hlow.le, hhigh.le, fun _ => ⟨hlow, hhigh⟩⟩

def ofBits (n : ℕ) : Binary := ofMagnitude double n

theorem hidden_double : double.hidden = 4503599627370496 := by
  decide

theorem ofBits_of_lt (h : n < 4503599627370496) : ofBits n = ⟨n, -1074, false⟩ := by
  have hdiv : n / 4503599627370496 = 0 := Nat.div_eq_of_lt h
  have hmod : n % 4503599627370496 = n := Nat.mod_eq_of_lt h
  simp only [ofBits, ofMagnitude, hidden_double, hdiv, hmod, if_true]
  rfl

theorem ofBits_add (h : m < 4503599627370496) (e : ℕ) :
    ofBits ((e + 1) * 4503599627370496 + m) =
      ⟨m + 4503599627370496, -1074 + e, decide (m = 0) && decide (0 < e)⟩ := by
  have hdiv : ((e + 1) * 4503599627370496 + m) / 4503599627370496 = e + 1 := by omega
  have hmod : ((e + 1) * 4503599627370496 + m) % 4503599627370496 = m := by omega
  have hexp : double.least + ((e + 1 : ℕ) : ℤ) - 1 = -1074 + e := by
    simp only [double]
    omega
  simp only [ofBits, ofMagnitude, hidden_double, hdiv, hmod, hexp]
  simp

theorem bits_cases (n : ℕ) : n < 4503599627370496 ∨
    ∃ e m, m < 4503599627370496 ∧ n = (e + 1) * 4503599627370496 + m := by
  rcases Nat.lt_or_ge n 4503599627370496 with h | h
  · exact .inl h
  · refine .inr ⟨n / 4503599627370496 - 1, n % 4503599627370496, ?_, ?_⟩ <;> omega

theorem mantissa_parity (n : ℕ) : (ofBits n).mantissa % 2 = n % 2 := by
  rcases bits_cases n with h | ⟨e, m, h, rfl⟩
  · rw [ofBits_of_lt h]
  · rw [ofBits_add h]
    simp only
    omega

theorem low_eq_high_of_step {b b' : Binary} (hgap : b'.halfGapBelow = false)
    (hmantissa : b'.mantissa = b.mantissa + 1) (hexp : b'.exponent = b.exponent) :
    b'.low = b.high := by
  rw [low, high, below, hgap, hmantissa, hexp, if_neg Bool.false_ne_true]
  push_cast
  ring

theorem low_eq_high_of_binade {b b' : Binary} (hgap : b'.halfGapBelow = true)
    (hmantissa : 2 * b'.mantissa = b.mantissa + 1) (hexp : b'.exponent = b.exponent + 1) :
    b'.low = b.high := by
  have hcast : (b.mantissa : ℚ) = 2 * b'.mantissa - 1 := by
    rw [eq_sub_iff_add_eq]
    exact_mod_cast hmantissa.symm
  rw [low, high, below, hgap, hexp, hcast, if_pos rfl, zpow_add_one₀ (by norm_num)]
  ring

theorem low_succ (n : ℕ) : (ofBits (n + 1)).low = (ofBits n).high := by
  rcases bits_cases n with h | ⟨e, m, h, rfl⟩
  · rcases Nat.lt_or_ge (n + 1) 4503599627370496 with hnext | hnext
    · rw [ofBits_of_lt h, ofBits_of_lt hnext]
      exact low_eq_high_of_step rfl rfl rfl
    · have hfirst : n + 1 = (0 + 1) * 4503599627370496 + 0 := by omega
      rw [hfirst, ofBits_add (by decide), ofBits_of_lt h]
      exact low_eq_high_of_step (by simp) (by simp only; omega) (by simp)
  · rcases Nat.lt_or_ge (m + 1) 4503599627370496 with hnext | hnext
    · rw [Nat.add_assoc, ofBits_add h, ofBits_add hnext]
      exact low_eq_high_of_step (by simp) (Nat.add_right_comm m 1 _) rfl
    · have hfirst : (e + 1) * 4503599627370496 + m + 1 =
          (e + 1 + 1) * 4503599627370496 + 0 := by omega
      rw [hfirst, ofBits_add h, ofBits_add (by decide)]
      exact low_eq_high_of_binade (by simp) (by simp only; omega) (by simp only; omega)

theorem strictMono_low : StrictMono fun n => (ofBits n).low := by
  apply strictMono_nat_of_lt_succ
  intro n
  rw [low_succ]
  exact (low_lt_value _).trans (value_lt_high _)

theorem eq_of_covers (hn : (ofBits n).Covers x) (hm : (ofBits m).Covers x) : n = m := by
  wlog hle : n ≤ m generalizing n m
  · exact (this hm hn (Nat.le_of_not_le hle)).symm
  by_contra hne
  have hlt : n + 1 ≤ m := by omega
  have hedge : x ≤ (ofBits (n + 1)).low := by
    rw [low_succ]
    exact hn.le_high
  have hmono := strictMono_low.monotone hlt
  have hnext : n + 1 = m := by
    by_contra hgap
    have hstrict := strictMono_low (Nat.lt_of_le_of_ne hlt hgap)
    exact absurd (hedge.trans_lt hstrict) (not_lt.mpr hm.low_le)
  subst hnext
  -- the common end of two intervals belongs to the one with the even mantissa
  rcases Nat.mod_two_eq_zero_or_one n with heven | hodd
  · have hinside := hm.inside (by rw [mantissa_parity]; omega)
    exact absurd hinside.1 (not_lt.mpr hedge)
  · have hinside := hn.inside (by rw [mantissa_parity]; omega)
    rw [low_succ] at hedge
    have hlow := hm.low_le
    rw [low_succ] at hlow
    exact absurd hinside.2 (not_lt.mpr hlow)

theorem pos_of_covers (hpos : 0 < n) (h : (ofBits n).Covers x) : 0 < x := by
  have hfirst : 0 < (ofBits 1).low := by
    rw [ofBits_of_lt (by decide)]
    simp only [low, below]
    norm_num
  exact hfirst.trans_le ((strictMono_low.monotone hpos).trans h.low_le)

end Binary

end GameTimeline.Decimal
