import GameTimeline.Json.Token
import GameTimeline.Proofs.Decimal.Spelling

namespace GameTimeline

namespace Json.Token

variable {w r : List Char} {c : Char}

def NoDigit (r : List Char) : Prop := ∀ c ∈ r.head?, c.isDigit = false

theorem noDigit_nil : NoDigit [] := by
  rintro _ ⟨⟩

theorem noDigit_cons (h : c.isDigit = false) : NoDigit (c :: r) := by
  rintro _ ⟨⟩
  exact h

theorem digits_append (hw : ∀ c ∈ w, c.isDigit = true) (hr : NoDigit r) :
    digits (w ++ r) = w ∧ afterDigits (w ++ r) = r := by
  rw [digits, afterDigits, List.takeWhile_append_of_pos hw, List.dropWhile_append_of_pos hw]
  cases r with
  | nil => simp
  | cons c r => simp [hr c rfl]

theorem whole?_append (hw : ∀ c ∈ w, c.isDigit = true) (hne : w ≠ [])
    (hlead : w.head? ≠ some '0' ∨ w = ['0']) (hr : NoDigit r) : whole? (w ++ r) = some (w, r) := by
  rcases hlead with hlead | rfl
  · obtain ⟨hdigits, hafter⟩ := digits_append hw hr
    rw [whole?.eq_def]
    split
    · rename_i l hzero
      rw [← List.head?_append_of_ne_nil w hne, hzero] at hlead
      exact absurd rfl hlead
    · simp [hdigits, hafter, hne]
  · rfl

theorem whole?_toDigits (n : Nat) : whole? (Nat.toDigits 10 n) = some (Nat.toDigits 10 n, []) := by
  have hlead : (Nat.toDigits 10 n).head? ≠ some '0' ∨ Nat.toDigits 10 n = ['0'] := by
    rcases Nat.eq_zero_or_pos n with rfl | hn
    · exact .inr rfl
    · exact .inl (Text.head_toDigits hn)
  simpa using whole?_append Text.isDigit_toDigits Nat.toDigits_ne_nil hlead noDigit_nil

theorem numeral?_decimal (n : Int) : numeral? (Text.decimal n) =
    some ⟨decide (n < 0), Nat.toDigits 10 n.natAbs, none, none⟩ := by
  cases n with
  | ofNat m =>
      have hdecimal : Text.decimal (Int.ofNat m) = Nat.toDigits 10 m := rfl
      rw [hdecimal, numeral?]
      · simp [whole?_toDigits, fraction?, exponent?]
      · exact fun _ hminus => Text.toDigits_ne_cons_of_not_isDigit (by decide) hminus
  | negSucc m =>
      simp [Text.decimal, numeral?, whole?_toDigits, fraction?, exponent?]

theorem isWordChar_of_isFigure {c : Char} (h : Decimal.isFigure c = true) :
    isWordChar c = true := by
  simp only [Decimal.isFigure, Bool.or_eq_true, decide_eq_true_eq] at h
  rcases h with (((h | rfl) | rfl) | rfl) | rfl
  · simp [isWordChar, Char.isAlphanum, h]
  all_goals decide

end Json.Token

namespace Number

open Json

def reread? (n : Number) : Option Number := (Token.numeral? n.chars).bind Numeral.toNumber?

theorem isWordChar_chars (n : Number) : ∀ c ∈ n.chars, Token.isWordChar c = true := by
  cases n with
  | int n => exact fun c hc => Token.isWordChar_of_isFigure (Decimal.isFigure_decimal n c hc)
  | float x =>
      rw [chars]
      split
      · rename_i f hf
        exact fun c hc => Token.isWordChar_of_isFigure
          (f.isFigure_json (Decimal.isDigit_of_ofBits hf) c hc)
      · exact List.all_eq_true.mp rfl

theorem reread?_int {n : Int} (hlow : -0x8000000000000000 ≤ n) (hhigh : n ≤ Text.maxWord) :
    (int n).reread? = some (int n) := by
  rw [reread?, chars, Token.numeral?_decimal, Option.bind_some, Numeral.toNumber?]
  simp only [Text.natOf_toDigits]
  by_cases hn : n < 0
  · have hwhole : n.natAbs ≠ 0 ∧ n.natAbs ≤ 0x8000000000000000 := by omega
    have habs : -(n.natAbs : Int) = n := by omega
    rw [if_pos (decide_eq_true hn), if_pos hwhole, habs]
  · have hwhole : n.natAbs ≤ Text.maxWord := by omega
    have habs : (n.natAbs : Int) = n := by omega
    rw [if_neg (by simpa using hn), if_pos hwhole, habs]

end Number

end GameTimeline
