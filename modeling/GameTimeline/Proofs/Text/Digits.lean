import GameTimeline.Proofs.Text.Blank
import GameTimeline.Text.Digits

namespace GameTimeline.Text

variable {s : List Char} {n : Nat}

theorem isBlank_of_isDigit {c : Char} (h : c.isDigit = true) : isBlank c = false := by
  obtain ⟨hlow, hhigh⟩ := Char.isDigit_iff_toNat.mp h
  have hzero : '0'.toNat = 48 := rfl
  have hnine : '9'.toNat = 57 := rfl
  simp only [isBlank, Bool.or_eq_false_iff, Bool.and_eq_false_iff, decide_eq_false_iff_not,
    beq_eq_false_iff_ne]
  omega

theorem not_blank_of_all (h : s.all (fun c => !isBlank c) = true) :
    ∀ c ∈ s, isBlank c = false := by
  simpa using h

theorem isDigit_toDigits : ∀ c ∈ Nat.toDigits 10 n, c.isDigit = true :=
  fun _ hc => Nat.isDigit_of_mem_toDigits (by decide) (by decide) hc

theorem toDigits_ne_cons_of_not_isDigit {c : Char} (hc : c.isDigit = false) :
    Nat.toDigits 10 n ≠ c :: s := by
  intro h
  have hdigit := isDigit_toDigits (n := n) c (h ▸ List.mem_cons_self ..)
  rw [hc] at hdigit
  cases hdigit

theorem head_toDigits (h : 0 < n) : (Nat.toDigits 10 n).head? ≠ some '0' := by
  induction n using Nat.strongRecOn with
  | ind n ih =>
      by_cases hn : n < 10
      · rw [Nat.toDigits_of_lt_base hn, List.head?_cons]
        intro hzero
        have hdigit : n = 0 := by simpa using hzero
        omega
      · have hten : 10 ≤ n := Nat.not_lt.mp hn
        have hrest := ih (n / 10) (by omega) (by omega)
        rw [Nat.toDigits_of_base_le (by decide) hten,
          List.head?_append_of_ne_nil _ Nat.toDigits_ne_nil]
        exact hrest

theorem nat?_toDigits (n : Nat) : nat? (Nat.toDigits 10 n) = some n := by
  have hne : Nat.toDigits 10 n ≠ [] := Nat.toDigits_ne_nil
  have hall : (Nat.toDigits 10 n).all Char.isDigit = true := List.all_eq_true.mpr isDigit_toDigits
  simp [nat?, hne, hall, natOf_toDigits]

theorem int?_of_digits (h : ∀ c ∈ s, c.isDigit = true) : int? s = (nat? s).map Int.ofNat := by
  cases s with
  | nil => rfl
  | cons c s =>
      have hc := h c (List.mem_cons_self ..)
      rw [int?]
      · rintro r hr
        cases hr
        cases hc
      · rintro r hr
        cases hr
        cases hc

theorem int?_decimal (n : Int) : int? (decimal n) = some n := by
  cases n with
  | ofNat m => rw [decimal, int?_of_digits isDigit_toDigits, nat?_toDigits, Option.map_some]
  | negSucc m =>
      rw [decimal, int?, nat?_toDigits]
      rfl

theorem int64?_decimal (i : Int64) : int64? (decimal i.toInt) = some i := by
  rw [int64?, int?_decimal, Option.bind_some, toInt64?_toInt]

theorem word?_toDigits (h : n < UInt64.size) : word? (Nat.toDigits 10 n) = some n := by
  have hle : n ≤ maxWord := Nat.le_pred_of_lt h
  simp only [word?]
  split
  · rename_i hplus
    exact absurd hplus (toDigits_ne_cons_of_not_isDigit (by decide))
  · simp [nat?_toDigits, hle]

end GameTimeline.Text
