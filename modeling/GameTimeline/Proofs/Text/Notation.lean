import GameTimeline.Proofs.Text.Digits
import Mathlib.Data.List.Induction

namespace GameTimeline.Text

variable {s : List Char} {n : Nat} {z : Int} {i : Int64}

inductive Denotes : List Char → Nat → Prop
  | digit {d : Nat} (hd : d < 10) : Denotes [Nat.digitChar d] d
  | append {s : List Char} {n d : Nat} (hs : Denotes s n) (hd : d < 10) :
      Denotes (s ++ [Nat.digitChar d]) (10 * n + d)

inductive DenotesSigned : List Char → Int → Prop
  | bare {s : List Char} {n : Nat} (h : Denotes s n) : DenotesSigned s n
  | plus {s : List Char} {n : Nat} (h : Denotes s n) : DenotesSigned ('+' :: s) n
  | minus {s : List Char} {n : Nat} (h : Denotes s n) : DenotesSigned ('-' :: s) (-n)

theorem exists_digit {c : Char} (h : c.isDigit = true) : ∃ d < 10, c = Nat.digitChar d := by
  obtain ⟨hlow, hhigh⟩ := Char.isDigit_iff_toNat.mp h
  have hzero : '0'.toNat = 48 := rfl
  have hnine : '9'.toNat = 57 := rfl
  have hlt : c.toNat - 48 < 10 := by omega
  refine ⟨c.toNat - 48, hlt, Char.toNat_inj.mp ?_⟩
  rw [Nat.toNat_digitChar_of_lt_ten hlt]
  omega

theorem natOf_append_digit (s : List Char) {d : Nat} (hd : d < 10) :
    natOf (s ++ [Nat.digitChar d]) = 10 * natOf s + d := by
  have hvalue := Nat.toNat_digitChar_sub_48_of_lt_ten hd
  have hzero : '0'.toNat = 48 := rfl
  rw [natOf, Nat.ofDigitChars_append, Nat.ofDigitChars_cons, Nat.ofDigitChars_nil, hzero, hvalue,
    natOf]

namespace Denotes

theorem ne_nil (h : Denotes s n) : s ≠ [] := by
  cases h <;> simp

theorem isDigit (h : Denotes s n) : ∀ c ∈ s, c.isDigit = true := by
  induction h with
  | digit hd => simpa [Nat.isDigit_digitChar] using hd
  | append hs hd ih =>
      intro c hc
      rcases List.mem_append.mp hc with hc | hc
      · exact ih c hc
      · rw [List.mem_singleton.mp hc, Nat.isDigit_digitChar]
        exact decide_eq_true hd

theorem natOf_eq (h : Denotes s n) : natOf s = n := by
  induction h with
  | digit hd => simpa [natOf] using natOf_append_digit [] hd
  | append hs hd ih => rw [natOf_append_digit _ hd, ih]

theorem of_digits (hne : s ≠ []) (hs : ∀ c ∈ s, c.isDigit = true) : Denotes s (natOf s) := by
  induction s using List.reverseRecOn with
  | nil => exact absurd rfl hne
  | append_singleton s c ih =>
      obtain ⟨d, hd, rfl⟩ := exists_digit (hs c (by simp))
      rw [natOf_append_digit s hd]
      by_cases hnil : s = []
      · subst hnil
        simpa [natOf] using digit hd
      · exact (ih hnil fun c hc => hs c (List.mem_append_left _ hc)).append hd

theorem eq_toDigits (h : Denotes s n) (hlead : s.head? = some '0' → s = ['0']) :
    s = Nat.toDigits 10 n := by
  induction h with
  | digit hd => exact (Nat.toDigits_of_lt_base hd).symm
  | @append s n d hs hd ih =>
      have hnot : s.head? ≠ some '0' := by
        intro hhead
        obtain ⟨r, rfl⟩ := List.head?_eq_some_iff.mp hhead
        simpa using hlead rfl
      have hdigits := ih fun hhead => absurd hhead hnot
      have hpos : 0 < n := by
        rcases Nat.eq_zero_or_pos n with rfl | hpos
        · rw [hdigits] at hnot
          exact absurd rfl hnot
        · exact hpos
      rw [hdigits, ← Nat.toDigits_of_lt_base hd, Nat.toDigits_append_toDigits (by decide) hpos hd]

end Denotes

theorem nat?_eq_some_iff : nat? s = some n ↔ Denotes s n := by
  constructor
  · intro h
    rw [nat?] at h
    split at h
    · cases h
    · rename_i hne
      split at h
      · rename_i hall
        cases h
        exact .of_digits (by simpa using hne) (List.all_eq_true.mp hall)
      · cases h
  · intro h
    have hall : s.all Char.isDigit = true := List.all_eq_true.mpr h.isDigit
    simp [nat?, h.ne_nil, hall, h.natOf_eq]

theorem denotes_zeros (k n : Nat) : Denotes (List.replicate k '0' ++ Nat.toDigits 10 n) n := by
  have hdigits : ∀ c ∈ List.replicate k '0' ++ Nat.toDigits 10 n, c.isDigit = true := by
    intro c hc
    rcases List.mem_append.mp hc with hc | hc
    · rw [List.eq_of_mem_replicate hc]
      rfl
    · exact isDigit_toDigits c hc
  have hvalue : natOf (List.replicate k '0' ++ Nat.toDigits 10 n) = n := by
    rw [natOf, Nat.ofDigitChars_append, Nat.ofDigitChars_replicate_zero, Nat.mul_zero]
    exact natOf_toDigits n
  have h := Denotes.of_digits (by simp) hdigits
  rwa [hvalue] at h

theorem DenotesSigned.sign_or_digit (h : DenotesSigned s z) :
    ∀ c ∈ s, c = '+' ∨ c = '-' ∨ c.isDigit = true := by
  intro c hc
  cases h with
  | bare h => exact .inr (.inr (h.isDigit c hc))
  | plus h => exact (List.mem_cons.mp hc).imp_right fun hc => .inr (h.isDigit c hc)
  | minus h => exact .inr ((List.mem_cons.mp hc).imp_right fun hc => h.isDigit c hc)

theorem int?_eq_some_iff : int? s = some z ↔ DenotesSigned s z := by
  constructor
  · intro h
    rw [int?.eq_def] at h
    split at h
    · obtain ⟨n, hn, rfl⟩ := Option.map_eq_some_iff.mp h
      exact .plus (nat?_eq_some_iff.mp hn)
    · simp only [Option.pure_def, Option.bind_eq_bind, Option.map_eq_some_iff,
        Option.bind_eq_some_iff, Option.some.injEq] at h
      obtain ⟨-, ⟨n, hn, rfl⟩, rfl⟩ := h
      exact .minus (nat?_eq_some_iff.mp hn)
    · obtain ⟨n, hn, rfl⟩ := Option.map_eq_some_iff.mp h
      exact .bare (nat?_eq_some_iff.mp hn)
  · intro h
    cases h with
    | bare h =>
        rw [int?_of_digits h.isDigit, nat?_eq_some_iff.mpr h]
        rfl
    | plus h =>
        rw [int?, nat?_eq_some_iff.mpr h]
        rfl
    | minus h =>
        rw [int?, nat?_eq_some_iff.mpr h]
        rfl

theorem toInt64?_eq_some_iff : toInt64? z = some i ↔ i.toInt = z := by
  constructor
  · exact toInt_of_toInt64?
  · rintro rfl
    exact toInt64?_toInt i

theorem int64?_eq_some_iff : int64? s = some i ↔ DenotesSigned s i.toInt := by
  simp only [int64?, Option.bind_eq_some_iff, int?_eq_some_iff, toInt64?_eq_some_iff]
  constructor
  · rintro ⟨z, hz, rfl⟩
    exact hz
  · intro h
    exact ⟨_, h, rfl⟩

end GameTimeline.Text
