import GameTimeline.Proofs.Decimal.Shortest
import GameTimeline.Proofs.Decimal.Spelling

namespace GameTimeline.Decimal

variable {x y : Float} {d : ℕ} {g : ℤ} {f f' : Figures} {tie : Tie}

theorem magnitudes_double : double.infinityBits + double.hidden = 9223372036854775808 := by
  decide

theorem infinityBits_double : double.infinityBits = 9218868437227405312 := by
  decide

def magnitude (x : Float) : ℕ := x.toBits.toNat % 9223372036854775808

def isNegative (x : Float) : Bool := x.toBits.toNat != magnitude x

section

open Float.Model UnpackedFloat

theorem isFinite_unpack_of_ones {bits : BitVec 64}
    (h : @unpackExponent .binary64 bits = -1#11) :
    (unpack .binary64 bits).isFinite = false := by
  have hspecial : unpack .binary64 bits =
      if @unpackMantissa .binary64 bits = 0#52
      then .infinity (.ofBitVec (@unpackSign .binary64 bits)) else .notANumber :=
    if_pos h
  rw [hspecial]
  split <;> rfl

theorem magnitude_lt (h : x.isFinite = true) : magnitude x < 9218868437227405312 := by
  have hexp : @unpackExponent .binary64 x.toBits.toBitVec ≠ -1#11 := by
    intro hones
    exact Bool.false_ne_true ((isFinite_unpack_of_ones hones).symm.trans h)
  have hfield : (x.toBits.toNat >>> 52) % 2 ^ 11 ≠ 2047 :=
    fun hones => hexp (BitVec.eq_of_toNat_eq hones)
  rw [Nat.shiftRight_eq_div_pow] at hfield
  rw [magnitude]
  omega

end

theorem eq_of_bits (hsign : isNegative x = isNegative y) (hmag : magnitude x = magnitude y) :
    x = y := by
  have hx := x.toBits.toNat_lt
  have hy := y.toBits.toNat_lt
  have hbits : x.toBits = y.toBits := by
    apply UInt64.toNat_inj.mp
    rw [isNegative, isNegative, Bool.eq_iff_iff, bne_iff_ne, bne_iff_ne] at hsign
    simp only [magnitude] at hsign hmag
    omega
  obtain ⟨⟨_, _⟩⟩ := x
  obtain ⟨⟨_, _⟩⟩ := y
  cases hbits
  rfl

namespace Figures

def value (f : Figures) : ℚ := Text.natOf f.digits * 10 ^ (f.point - f.digits.length)

structure Normal (f : Figures) : Prop where
  digits : ∀ c ∈ f.digits, c.isDigit = true
  ne_nil : f.digits ≠ []
  leading : f.digits.head? ≠ some '0' ∨ f.digits = ['0'] ∧ f.point = 1

structure Spells (f : Figures) (x : Float) : Prop where
  negative : f.negative = isNegative x
  zero : magnitude x = 0 → f.value = 0
  covers : 0 < magnitude x → (Binary.ofBits (magnitude x)).Covers f.value

theorem Spells.eq (hx : f.Spells x) (hy : f'.Spells y) (hsign : f.negative = f'.negative)
    (hvalue : f.value = f'.value) : x = y := by
  apply eq_of_bits
  · rw [← hx.negative, ← hy.negative, hsign]
  · rcases Nat.eq_zero_or_pos (magnitude x) with hzero | hpos
    · rcases Nat.eq_zero_or_pos (magnitude y) with hzero' | hpos'
      · rw [hzero, hzero']
      · have hvalue' := Binary.pos_of_covers hpos' (hy.covers hpos')
        rw [← hvalue, hx.zero hzero] at hvalue'
        exact absurd hvalue' (lt_irrefl 0)
    · have hcovers := hx.covers hpos
      have hvalue' := Binary.pos_of_covers hpos hcovers
      rcases Nat.eq_zero_or_pos (magnitude y) with hzero' | hpos'
      · rw [hvalue, hy.zero hzero'] at hvalue'
        exact absurd hvalue' (lt_irrefl 0)
      · rw [hvalue] at hcovers
        exact Binary.eq_of_covers hcovers (hy.covers hpos')

end Figures

theorem exists_zeros (ds : List Char) :
    ∃ k, ds = stripZeros ds ++ List.replicate k '0' := by
  refine ⟨(ds.reverse.takeWhile (· == '0')).length, ?_⟩
  have hzeros : List.replicate (ds.reverse.takeWhile (· == '0')).length '0' =
      (ds.reverse.takeWhile (· == '0')).reverse := by
    rw [eq_comm, ← List.length_reverse, List.eq_replicate_length]
    intro c hc
    simpa using List.mem_takeWhile_imp (List.mem_reverse.mp hc)
  rw [hzeros, stripZeros, ← List.reverse_append, List.takeWhile_append_dropWhile,
    List.reverse_reverse]

theorem natOf_append_zeros (ds : List Char) (k : ℕ) :
    Text.natOf (ds ++ List.replicate k '0') = 10 ^ k * Text.natOf ds := by
  rw [Text.natOf, Text.natOf, Nat.ofDigitChars_append, Nat.ofDigitChars_replicate_zero]

def figures (negative : Bool) (d : ℕ) (g : ℤ) : Figures :=
  ⟨negative, stripZeros (Nat.toDigits 10 d), (Nat.toDigits 10 d).length + g⟩

theorem value_figures (negative : Bool) (d : ℕ) (g : ℤ) :
    (figures negative d g).value = d * 10 ^ g := by
  obtain ⟨k, hk⟩ := exists_zeros (Nat.toDigits 10 d)
  have hnat : (d : ℚ) = 10 ^ k * Text.natOf (stripZeros (Nat.toDigits 10 d)) := by
    conv_lhs => rw [← Text.natOf_toDigits d, hk, natOf_append_zeros]
    push_cast
    rfl
  have hlength : ((Nat.toDigits 10 d).length : ℤ) =
      (stripZeros (Nat.toDigits 10 d)).length + k := by
    conv_lhs => rw [hk, List.length_append, List.length_replicate]
    push_cast
    rfl
  have hexp : ((Nat.toDigits 10 d).length : ℤ) + g - (stripZeros (Nat.toDigits 10 d)).length =
      k + g := by
    omega
  rw [figures, Figures.value, hexp, zpow_add₀ (by norm_num), zpow_natCast, hnat]
  ring

theorem normal_figures (negative : Bool) (hd : 0 < d) (g : ℤ) :
    (figures negative d g).Normal := by
  obtain ⟨k, hk⟩ := exists_zeros (Nat.toDigits 10 d)
  have hhead := Text.head_toDigits hd
  have hne : stripZeros (Nat.toDigits 10 d) ≠ [] := by
    intro hnil
    rw [hnil, List.nil_append] at hk
    rw [hk] at hhead
    cases k with
    | zero => exact Nat.toDigits_ne_nil hk
    | succ k => exact hhead rfl
  refine ⟨fun c hc => ?_, hne, .inl ?_⟩
  · apply Text.isDigit_toDigits (n := d)
    rw [hk]
    exact List.mem_append_left _ hc
  · rwa [hk, List.head?_append_of_ne_nil _ hne] at hhead

theorem ofFloat_of_zero (h : magnitude x = 0) :
    Reading.ofFloat tie x = .finite ⟨isNegative x, ['0'], 1⟩ := by
  rw [Reading.ofFloat, Reading.ofBits, magnitudes_double]
  exact if_pos h

theorem ofFloat_of_pos (hpos : 0 < magnitude x) (h : x.isFinite = true)
    (hshort : (Binary.ofBits (magnitude x)).shortest double tie = (d, g)) :
    Reading.ofFloat tie x = .finite (figures (isNegative x) d g) := by
  rw [Binary.ofBits, magnitude] at hshort
  rw [Reading.ofFloat, Reading.ofBits, magnitudes_double]
  simp only [infinityBits_double, hshort]
  exact (if_neg hpos.ne').trans (if_pos (magnitude_lt h))

theorem exists_figures (h : x.isFinite = true) (tie : Tie) :
    ∃ f, Reading.ofFloat tie x = .finite f ∧ f.Normal ∧ f.Spells x := by
  rcases Nat.eq_zero_or_pos (magnitude x) with hzero | hpos
  · refine ⟨_, ofFloat_of_zero hzero, ⟨?_, nofun, .inr ⟨rfl, rfl⟩⟩, rfl, ?_, ?_⟩
    · exact List.forall_mem_singleton.mpr rfl
    · intro _
      simp [Figures.value, Text.natOf, Nat.ofDigitChars]
    · intro hpos
      omega
  · have hcovers := Binary.covers_shortest (Binary.narrow_ofBits hpos) tie
    generalize hshort : (Binary.ofBits (magnitude x)).shortest double tie = p at hcovers
    obtain ⟨d, g⟩ := p
    have hd : 0 < d := by
      have hvalue := Binary.pos_of_covers hpos hcovers
      rcases Nat.eq_zero_or_pos d with rfl | hd
      · simp at hvalue
      · exact hd
    refine ⟨_, ofFloat_of_pos hpos h hshort, normal_figures _ hd g, rfl, ?_, ?_⟩
    · intro hzero
      omega
    · intro _
      rw [value_figures]
      exact hcovers

end GameTimeline.Decimal
