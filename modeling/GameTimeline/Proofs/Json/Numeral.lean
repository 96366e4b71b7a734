import GameTimeline.Proofs.Decimal.Reading
import GameTimeline.Proofs.Json.Number

namespace GameTimeline

open Decimal (Figures)

variable {w r r' : List Char} {c : Char} {f : Figures}

namespace Numeral

def power : Option (Bool × List Char) → ℤ
  | none => 0
  | some (true, ds) => -(Text.natOf ds : ℤ)
  | some (false, ds) => Text.natOf ds

def value (t : Numeral) : ℚ :=
  Text.natOf (t.whole ++ t.fraction.getD []) * 10 ^ (power t.exponent - (t.fraction.getD []).length)

theorem value_whole {negative : Bool} {exponent : Option (Bool × List Char)} :
    (Numeral.mk negative w none exponent).value = Text.natOf w * 10 ^ power exponent := by
  simp [value]

theorem value_fraction {negative : Bool} {exponent : Option (Bool × List Char)} :
    (Numeral.mk negative w (some r) exponent).value =
      Text.natOf (w ++ r) * 10 ^ (power exponent - r.length) :=
  rfl

theorem power_toDigits (e : ℤ) : power (some (decide (e < 0), Nat.toDigits 10 e.natAbs)) = e := by
  by_cases hneg : e < 0
  · rw [decide_eq_true hneg, power, Text.natOf_toDigits]
    omega
  · rw [decide_eq_false hneg, power, Text.natOf_toDigits]
    omega

end Numeral

namespace Json.Token

theorem fraction?_append (hw : ∀ c ∈ w, c.isDigit = true) (hne : w ≠ []) (hr : NoDigit r) :
    fraction? ('.' :: (w ++ r)) = some (some w, r) := by
  obtain ⟨hdigits, hafter⟩ := digits_append hw hr
  simp [fraction?, hdigits, hafter, hne]

theorem exponent?_toDigits (e : ℤ) :
    exponent? ('e' :: (if e < 0 then '-' else '+') :: Nat.toDigits 10 e.natAbs) =
      some (some (decide (e < 0), Nat.toDigits 10 e.natAbs)) := by
  have hall : (Nat.toDigits 10 e.natAbs).all Char.isDigit = true :=
    List.all_eq_true.mpr Text.isDigit_toDigits
  split
  · rename_i hneg
    simp [exponent?, exponentDigits?, Nat.toDigits_ne_nil, hall, hneg]
  · rename_i hneg
    simp [exponent?, exponentDigits?, Nat.toDigits_ne_nil, hall, hneg]

theorem numeral?_sign {fraction : Option (List Char)} {exponent : Option (Bool × List Char)}
    {l : List Char} (f : Figures) (hw : whole? l = some (w, r))
    (hf : fraction? r = some (fraction, r')) (he : exponent? r' = some exponent) :
    numeral? (f.sign ++ l) = some ⟨f.negative, w, fraction, exponent⟩ := by
  rw [Figures.sign]
  cases f.negative with
  | true => simp [numeral?, hw, hf, he]
  | false =>
      rw [if_neg Bool.false_ne_true, List.nil_append, numeral?]
      · simp [hw, hf, he]
      · rintro l rfl
        cases hw

end Json.Token

namespace Decimal.Figures

open Json Token

def Reads (f : Figures) (l : List Char) : Prop :=
  ∃ t, numeral? l = some t ∧ t.negative = f.negative ∧ t.value = f.value ∧
    (t.fraction.isSome ∨ t.exponent.isSome)

theorem isDigit_zeros (n : ℤ) : ∀ c ∈ zeros n, c.isDigit = true := by
  intro c hc
  rw [(List.mem_replicate.mp hc).2]
  rfl

theorem length_zeros (n : ℤ) : (zeros n).length = n.toNat := List.length_replicate

theorem natOf_zeros_append (n : ℤ) (ds : List Char) :
    Text.natOf ('0' :: (zeros n ++ ds)) = Text.natOf ds := by
  have hzeros : '0' :: (zeros n ++ ds) = List.replicate (n.toNat + 1) '0' ++ ds := rfl
  rw [hzeros, Text.natOf, Nat.ofDigitChars_append, Nat.ofDigitChars_replicate_zero, Nat.mul_zero]
  rfl

theorem reads_small (h : f.Normal) (hpoint : f.point ≤ 0) : f.Reads (f.sign ++ f.positional) := by
  have hdigits : ∀ c ∈ zeros (-f.point) ++ f.digits, c.isDigit = true :=
    List.forall_mem_append.mpr ⟨isDigit_zeros _, h.digits⟩
  have hne : zeros (-f.point) ++ f.digits ≠ [] := by simp [h.ne_nil]
  have hfraction := fraction?_append hdigits hne noDigit_nil
  rw [List.append_nil] at hfraction
  rw [positional, if_pos hpoint]
  refine ⟨_, numeral?_sign f rfl hfraction rfl, rfl, ?_, .inl rfl⟩
  have hexp : (0 : ℤ) - (zeros (-f.point) ++ f.digits).length = f.point - f.digits.length := by
    rw [List.length_append, length_zeros]
    omega
  rw [Numeral.value_fraction, value, ← natOf_zeros_append (-f.point) f.digits, ← hexp]
  rfl

theorem reads_whole (h : f.Normal) (hpos : 0 < f.point) (hlen : f.digits.length ≤ f.point) :
    f.Reads (f.sign ++ f.positional ++ ['.', '0']) := by
  have hwhole : whole? (f.digits ++ zeros (f.point - f.digits.length) ++ ['.', '0']) =
      some (f.digits ++ zeros (f.point - f.digits.length), ['.', '0']) := by
    apply whole?_append
    · exact List.forall_mem_append.mpr ⟨h.digits, isDigit_zeros _⟩
    · simp [h.ne_nil]
    · rw [List.head?_append_of_ne_nil _ h.ne_nil]
      refine h.leading.imp_right fun hzero => ?_
      rw [hzero.1, hzero.2]
      rfl
    · exact noDigit_cons rfl
  rw [positional, if_neg (not_le.mpr hpos), if_pos hlen, List.append_assoc]
  refine ⟨_, numeral?_sign f hwhole rfl rfl, rfl, ?_, .inl rfl⟩
  have hzeros : f.digits ++ zeros (f.point - f.digits.length) ++ ['0'] =
      f.digits ++ List.replicate ((f.point - f.digits.length).toNat + 1) '0' := by
    rw [List.append_assoc, List.replicate_succ', zeros]
  have hexp : (((f.point - f.digits.length).toNat + 1 : ℕ) : ℤ) + -1 =
      f.point - f.digits.length := by
    omega
  have hpow : (10 : ℚ) ^ ((f.point - f.digits.length).toNat + 1) * 10 ^ (-1 : ℤ) =
      10 ^ (f.point - f.digits.length) := by
    rw [← zpow_natCast, ← zpow_add₀ (by norm_num), hexp]
  calc (Text.natOf (f.digits ++ zeros (f.point - f.digits.length) ++ ['0']) : ℚ) * 10 ^ (-1 : ℤ)
      = Text.natOf f.digits *
          (10 ^ ((f.point - f.digits.length).toNat + 1) * 10 ^ (-1 : ℤ)) := by
        rw [hzeros, natOf_append_zeros]
        push_cast
        ring
    _ = f.value := by rw [hpow, value]

theorem reads_split (h : f.Normal) (hpos : 0 < f.point) (hlen : f.point < f.digits.length) :
    f.Reads (f.sign ++ f.positional) := by
  have hlead : f.digits.head? ≠ some '0' := by
    rcases h.leading with hlead | ⟨hzero, hone⟩
    · exact hlead
    · rw [hzero, hone] at hlen
      exact absurd hlen (lt_irrefl 1)
  have hwhole : whole? (f.digits.take f.point.toNat ++ '.' :: f.digits.drop f.point.toNat) =
      some (f.digits.take f.point.toNat, '.' :: f.digits.drop f.point.toNat) := by
    apply whole?_append
    · exact fun c hc => h.digits c (List.mem_of_mem_take hc)
    · simp [h.ne_nil, hpos]
    · rw [List.head?_take]
      rw [if_neg (by omega)]
      exact .inl hlead
    · exact noDigit_cons rfl
  have hfraction := fraction?_append (w := f.digits.drop f.point.toNat) (r := [])
    (fun c hc => h.digits c (List.mem_of_mem_drop hc)) (by simp; omega) noDigit_nil
  rw [List.append_nil] at hfraction
  rw [positional, if_neg (not_le.mpr hpos), if_neg (not_le.mpr hlen)]
  refine ⟨_, numeral?_sign f hwhole hfraction rfl, rfl, ?_, .inl rfl⟩
  have hexp : (0 : ℤ) - (f.digits.drop f.point.toNat).length = f.point - f.digits.length := by
    rw [List.length_drop]
    omega
  rw [Numeral.value_fraction, value, ← hexp, List.take_append_drop]
  rfl

theorem reads_exponential (h : f.Normal) : f.Reads (f.sign ++ f.exponential) := by
  obtain ⟨d, ds, hds⟩ := List.exists_cons_of_ne_nil h.ne_nil
  obtain ⟨hd, hrest⟩ := List.forall_mem_cons.mp (hds ▸ h.digits)
  have hwhole (c : Char) (r : List Char) (hc : c.isDigit = false) :
      whole? ([d] ++ c :: r) = some ([d], c :: r) := by
    apply whole?_append (List.forall_mem_singleton.mpr hd) (List.cons_ne_nil _ _)
    · rw [List.head?_cons]
      by_cases hzero : d = '0'
      · exact .inr (by rw [hzero])
      · exact .inl fun hsome => hzero (Option.some.inj hsome)
    · exact noDigit_cons hc
  cases ds with
  | nil =>
      simp only [exponential, hds]
      refine ⟨_, numeral?_sign f (hwhole 'e' _ rfl) rfl (exponent?_toDigits _), rfl, ?_, .inr rfl⟩
      rw [Numeral.value_whole, Numeral.power_toDigits, value, hds]
      rfl
  | cons c ds =>
      have hfraction := fraction?_append (r := 'e' ::
        (if f.point - 1 < 0 then '-' else '+') :: Nat.toDigits 10 (f.point - 1).natAbs)
        hrest (List.cons_ne_nil _ _) (noDigit_cons rfl)
      simp only [exponential, hds]
      refine ⟨_, numeral?_sign f (hwhole '.' _ rfl) hfraction (exponent?_toDigits _), rfl, ?_,
        .inl rfl⟩
      have hexp : f.point - 1 - ((c :: ds).length : ℕ) = f.point - ((d :: c :: ds).length : ℕ) := by
        rw [List.length_cons (a := d)]
        push_cast
        ring
      rw [Numeral.value_fraction, Numeral.power_toDigits, value, hds, hexp]
      rfl

theorem reads_json (h : f.Normal) : f.Reads f.json := by
  rw [json]
  split
  · rcases le_or_gt f.point 0 with hpoint | hpos
    · have hfraction : f.isWhole = false := by
        have hne := List.length_pos_iff.mpr h.ne_nil
        rw [isWhole, decide_eq_false_iff_not]
        omega
      rw [hfraction, if_neg Bool.false_ne_true, List.append_nil]
      exact reads_small h hpoint
    · rcases le_or_gt (f.digits.length : ℤ) f.point with hlen | hlen
      · rw [isWhole, decide_eq_true hlen, if_pos rfl]
        exact reads_whole h hpos hlen
      · rw [isWhole, decide_eq_false (not_le.mpr hlen), if_neg Bool.false_ne_true, List.append_nil]
        exact reads_split h hpos hlen
  · exact reads_exponential h

end Decimal.Figures

end GameTimeline
