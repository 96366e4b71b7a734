import GameTimeline.Json.Printer
import GameTimeline.Json.Token
import Mathlib.Data.List.Basic

namespace GameTimeline.Json

inductive Escape (c : Char) : List Char → Prop where
  | pair {e : Char} : Spelled.simpleEscape? e = some c → e ≠ 'u' → Escape c ['\\', e]
  | control {h i j k : Char} : Text.unhex? [h, i, j, k] = some c.toNat → c.toNat < 0x20 →
      (∀ d ∈ [h, i, j, k], d ≠ '"' ∧ d ≠ '\\') → Escape c ['\\', 'u', h, i, j, k]
  | bare : c ≠ '"' → c ≠ '\\' → 0x20 ≤ c.toNat → Escape c [c]

theorem escape_control : ∀ n < 0x20, Text.unhex? (Text.hexPadded 4 n) = some n ∧
    (Text.hexPadded 4 n).all (fun d => d != '"' && d != '\\') = true := by
  decide

theorem escape_escapeChar (c : Char) : Escape c (escapeChar c) := by
  rw [escapeChar]
  split
  · rename_i h
    subst h
    exact .pair rfl (by decide)
  split
  · rename_i h
    subst h
    exact .pair rfl (by decide)
  split
  · rename_i h
    subst h
    exact .pair rfl (by decide)
  split
  · rename_i h
    subst h
    exact .pair rfl (by decide)
  split
  · rename_i h
    subst h
    exact .pair rfl (by decide)
  split
  · rename_i h
    subst h
    exact .pair rfl (by decide)
  split
  · rename_i h
    subst h
    exact .pair rfl (by decide)
  split
  · rename_i h
    obtain ⟨hread, hplain⟩ := escape_control c.toNat h
    exact .control hread h fun d hd => by simpa using List.all_eq_true.mp hplain d hd
  · rename_i hquote hslash _ _ _ _ _ h
    exact .bare hquote hslash (Nat.not_lt.mp h)

variable {c : Char} {l r : List Char}

theorem Escape.splitQuoted (h : Escape c l) :
    Token.splitQuoted (l ++ r) = (Token.splitQuoted r).map fun p => (l ++ p.1, p.2) := by
  cases h with
  | pair => simp [Token.splitQuoted]
  | control _ _ hplain =>
      simp only [List.forall_mem_cons] at hplain
      obtain ⟨⟨h₁, h₁'⟩, ⟨h₂, h₂'⟩, ⟨h₃, h₃'⟩, ⟨h₄, h₄'⟩, -⟩ := hplain
      simp [Token.splitQuoted, Option.map_map, Function.comp_def, *]
  | bare _ hslash => simp [Token.splitQuoted, hslash]

theorem Escape.isEscaped (h : Escape c l) : Spelled.isEscaped (l ++ r) = Spelled.isEscaped r := by
  cases h with
  | pair hread hu => simp [Spelled.isEscaped, hread, hu]
  | control hread => simp [Spelled.isEscaped, hread]
  | bare _ hslash hlow => simp [Spelled.isEscaped, hslash, hlow]

theorem Escape.unescape? (h : Escape c l) :
    Spelled.unescape? (l ++ r) = (Spelled.unescape? r).map (c :: ·) := by
  cases h with
  | pair hread hu => simp [Spelled.unescape?, hread, hu]
  | control hread hlow =>
      have hhigh : Spelled.isHighSurrogate c.toNat = false := by
        simp [Spelled.isHighSurrogate]
        omega
      have hlow : Spelled.isLowSurrogate c.toNat = false := by
        simp [Spelled.isLowSurrogate]
        omega
      simp [Spelled.unescape?, hread, hhigh, hlow]
  | bare _ hslash hlow => simp [Spelled.unescape?, hslash, Nat.not_lt.mpr hlow]

def escaped (s : String) : List Char := s.toList.flatMap escapeChar

theorem splitQuoted_escaped (s : String) (r : List Char) :
    Token.splitQuoted (escaped s ++ '"' :: r) = some (escaped s, r) := by
  rw [escaped]
  induction s.toList with
  | nil => simp [Token.splitQuoted]
  | cons c l ih =>
      rw [List.flatMap_cons, List.append_assoc, (escape_escapeChar c).splitQuoted, ih]
      rfl

theorem isEscaped_escaped (s : String) : Spelled.isEscaped (escaped s) = true := by
  rw [escaped]
  induction s.toList with
  | nil => rfl
  | cons c l ih => rw [List.flatMap_cons, (escape_escapeChar c).isEscaped, ih]

theorem text?_escaped (s : String) : Spelled.text? (escaped s) = some s := by
  have hread (l : List Char) : Spelled.unescape? (l.flatMap escapeChar) = some l := by
    induction l with
    | nil => rfl
    | cons c l ih =>
        rw [List.flatMap_cons, (escape_escapeChar c).unescape?, ih]
        rfl
  rw [Spelled.text?, escaped, hread, Option.map_some, String.ofList_toList]

end GameTimeline.Json
