import GameTimeline.Proofs.Field.Clock
import GameTimeline.Proofs.Field.Numeral

namespace GameTimeline

namespace Text

variable {c : Char} {s : List Char}

theorem mem_dropBlank (hc : isBlank c = false) (h : c ∈ s) : c ∈ dropBlank s := by
  rw [← List.takeWhile_append_dropWhile (p := isBlank) (l := s)] at h
  rcases List.mem_append.mp h with h | h
  · have hblank := List.mem_takeWhile_imp h
    rw [hc] at hblank
    cases hblank
  · exact h

theorem mem_trimChars (hc : isBlank c = false) (h : c ∈ s) : c ∈ trimChars s :=
  List.mem_reverse.mpr (mem_dropBlank hc (List.mem_reverse.mpr (mem_dropBlank hc h)))

end Text

structure Foreign (s : String) : Prop where
  number : (FieldValue.text s).whole? = none
  clock : ':' ∈ s.toList → Clock.parse? s = none
  flag : Domain.normalizeFlag (.text s) = none

namespace Foreign

def isOddInNumber (c : Char) : Bool :=
  !Text.isBlank c && !c.isDigit && decide (c ∉ ['+', '-', ',', ':'])

def isOddInFlag (c : Char) : Bool :=
  !Text.isBlank c && decide (c.toLower ∉ ['t', 'r', 'u', 'e', 'f', 'a', 'l', 's'])

variable {s : String} {c : Char}

theorem isOddInNumber_iff : isOddInNumber c = true ↔
    (Text.isBlank c = false ∧ c.isDigit = false) ∧ c ≠ '+' ∧ c ≠ '-' ∧ c ≠ ',' ∧ c ≠ ':' := by
  simp [isOddInNumber]

theorem isOddInFlag_of_isDigit (h : c.isDigit = true) : isOddInFlag c = true := by
  have hall : ∀ n < 58, 48 ≤ n → isOddInFlag (Char.ofNat n) = true := by decide
  obtain ⟨hlow, hhigh⟩ := Char.isDigit_iff_toNat.mp h
  have hdigit := hall c.toNat (Nat.lt_succ_of_le hhigh) hlow
  rwa [Char.ofNat_toNat] at hdigit

theorem whole?_eq_none (h : c ∈ s.toList) (hc : isOddInNumber c = true) :
    (FieldValue.text s).whole? = none := by
  obtain ⟨⟨hblank, hdigit⟩, hplus, hminus, hcomma, -⟩ := isOddInNumber_iff.mp hc
  have hmem : c ∈ cleanDigits s.toList :=
    List.mem_filter.mpr ⟨Text.mem_trimChars hblank h, by simpa using hcomma⟩
  rw [FieldValue.whole?_text_eq_none_iff]
  rintro ⟨n, hn⟩
  rcases hn.sign_or_digit c hmem with rfl | rfl | hd
  · exact hplus rfl
  · exact hminus rfl
  · cases hdigit.symm.trans hd

theorem parse?_eq_none (h : c ∈ s.toList) (hc : isOddInNumber c = true) :
    Clock.parse? s = none := by
  obtain ⟨⟨hblank, hdigit⟩, -, -, -, hcolon⟩ := isOddInNumber_iff.mp hc
  refine Option.eq_none_iff_forall_ne_some.mpr fun t ht => ?_
  obtain ⟨n, hn, -⟩ := Clock.parse?_eq_some_iff.mp ht
  rcases hn.colon_or_digit c (Text.mem_trimChars hblank h) with rfl | hd
  · exact hcolon rfl
  · cases hdigit.symm.trans hd

theorem normalizeFlag_eq_none (h : c ∈ s.toList) (hc : isOddInFlag c = true) :
    Domain.normalizeFlag (.text s) = none := by
  simp only [isOddInFlag, Bool.and_eq_true, Bool.not_eq_true', decide_eq_true_eq] at hc
  obtain ⟨hblank, hletter⟩ := hc
  have hmem : c.toLower ∈ (Text.lowerAscii (Text.trim s)).toList := by
    simp only [Text.lowerAscii, Text.trim, String.toList_ofList]
    exact List.mem_map_of_mem (Text.mem_trimChars hblank h)
  have hother (t : String) (ht : t.toList ⊆ ['t', 'r', 'u', 'e', 'f', 'a', 'l', 's']) :
      Text.lowerAscii (Text.trim s) ≠ t := by
    rintro rfl
    exact hletter (ht hmem)
  rw [Domain.normalizeFlag, if_neg (hother "true" (by decide)), if_neg (hother "false" (by decide))]

theorem of_odd {d : Char} (hc : c ∈ s.toList) (hnumber : isOddInNumber c = true)
    (hd : d ∈ s.toList) (hflag : isOddInFlag d = true) : Foreign s :=
  ⟨whole?_eq_none hc hnumber, fun _ => parse?_eq_none hc hnumber, normalizeFlag_eq_none hd hflag⟩

theorem of_head {l : List Char} (hnumber : isOddInNumber c = true) (hflag : isOddInFlag c = true) :
    Foreign (String.ofList (c :: l)) :=
  have hc : c ∈ (String.ofList (c :: l)).toList := by simp
  of_odd hc hnumber hc hflag

theorem showInt {n : Int} (h : Text.toInt64? n = none) : Foreign (Text.showInt n) := by
  have hfigure := Decimal.isFigure_decimal n
  have hclean : cleanDigits (Text.decimal n) = Text.decimal n := by
    rw [cleanDigits, Text.trimChars_of_no_blank fun c hc =>
      Decimal.isBlank_of_isFigure (hfigure c hc), List.filter_eq_self]
    intro c hc
    rw [bne_iff_ne]
    rintro rfl
    exact absurd (hfigure _ hc) (by decide)
  have hdigit : ∃ c ∈ Text.decimal n, c.isDigit = true := by
    cases n with
    | ofNat m =>
        obtain ⟨c, hc⟩ := List.exists_mem_of_ne_nil _ (Nat.toDigits_ne_nil (b := 10) (n := m))
        exact ⟨c, hc, Text.isDigit_toDigits c hc⟩
    | negSucc m =>
        obtain ⟨c, hc⟩ := List.exists_mem_of_ne_nil _ (Nat.toDigits_ne_nil (b := 10) (n := m + 1))
        exact ⟨c, List.mem_cons_of_mem _ hc, Text.isDigit_toDigits c hc⟩
  obtain ⟨c, hc, hdigit⟩ := hdigit
  refine ⟨?_, fun hcolon => ?_, normalizeFlag_eq_none ?_ (isOddInFlag_of_isDigit hdigit)⟩
  · rw [FieldValue.whole?, Text.showInt, String.toList_ofList, hclean, Text.int64?,
      Text.int?_decimal, Option.bind_some, h]
  · rw [Text.showInt, String.toList_ofList] at hcolon
    exact absurd (hfigure _ hcolon) (by decide)
  · rwa [Text.showInt, String.toList_ofList]

theorem json (f : Decimal.Figures) : Foreign (String.ofList f.json) := by
  rw [Decimal.Figures.json]
  split
  -- a whole number is given its point back
  · have hpoint : '.' ∈ f.sign ++ f.positional ++ (if f.isWhole then ['.', '0'] else []) := by
      by_cases hwhole : f.isWhole = true
      · simp [hwhole]
      · have hlength : ¬ (f.digits.length : Int) ≤ f.point := by
          simpa [Decimal.Figures.isWhole] using hwhole
        have hpositional : '.' ∈ f.positional := by
          by_cases hsmall : f.point ≤ 0
          · simp [Decimal.Figures.positional, hsmall]
          · simp [Decimal.Figures.positional, hsmall, hlength]
        simp [hpositional]
    have hmem : '.' ∈ (String.ofList (f.sign ++ f.positional ++
        (if f.isWhole then ['.', '0'] else []))).toList := by rwa [String.toList_ofList]
    exact of_odd hmem rfl hmem rfl
  · have he : 'e' ∈ f.exponential := by simp [Decimal.Figures.exponential]
    have hsign : ∃ c ∈ f.exponential, isOddInFlag c = true :=
      ⟨if f.point - 1 < 0 then '-' else '+', by simp [Decimal.Figures.exponential],
        by split <;> decide⟩
    obtain ⟨c, hc, hflag⟩ := hsign
    refine of_odd (c := 'e') (d := c) ?_ rfl ?_ hflag
    · simp [he]
    · simp [hc]

theorem null : Foreign "null" :=
  of_head (c := 'n') (l := ['u', 'l', 'l']) (by decide) (by decide)

theorem compact_num {n : Number} (h : (Json.num n).int64? = none) : Foreign (Json.num n).compact := by
  rw [Json.compact, Json.chars]
  cases n with
  | int n => exact showInt h
  | float x =>
      rw [Number.chars]
      split
      · exact json _
      · exact null

theorem of_unsupported {j : Json} {spelling : String}
    (h : FieldValue.ofJson j = .unsupported spelling) : Foreign spelling := by
  cases j with
  | null =>
      cases h
      exact null
  | bool b => cases h
  | str s => cases h
  | num n =>
      cases hn : (Json.num n).int64? with
      | none =>
          simp only [FieldValue.ofJson, hn, Json.sorted] at h
          cases h
          exact compact_num hn
      | some i =>
          simp only [FieldValue.ofJson, hn] at h
          cases h
  | arr xs =>
      cases h
      rw [Json.sorted, Json.compact]
      cases Json.sortedItems xs <;> exact of_head (by decide) (by decide)
  | obj ms =>
      cases h
      rw [Json.sorted, Json.compact]
      cases Json.sortedMembers [] ms <;> exact of_head (by decide) (by decide)

theorem normalize_eq_none {d : Domain} (h : Foreign s) (htext : d ≠ .text)
    (hlabels : ∀ values, d = .labels values → Text.trim s ∉ values) :
    d.normalize (.text s) = none := by
  cases d with
  | nonNegative =>
      rw [Domain.normalize, h.number]
      rfl
  | bounded min max =>
      rw [Domain.normalize, h.number]
      rfl
  | labels values =>
      have hmem : ¬ values.contains (Text.trim s) = true := by simpa using hlabels values rfl
      rw [Domain.normalize, Domain.normalizeLabel, if_neg hmem]
  | timer =>
      rw [Domain.normalize, Domain.normalizeTimer]
      split
      · rename_i hcolon
        rw [h.clock (List.contains_iff_mem.mp hcolon)]
        rfl
      · rw [h.number]
        rfl
  | flag => exact h.flag
  | text => exact absurd rfl htext

end Foreign

end GameTimeline
