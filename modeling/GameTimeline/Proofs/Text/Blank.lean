import GameTimeline.Text.Blank
import Mathlib.Data.List.DropRight

namespace GameTimeline.Text

theorem trimChars_eq (s : List Char) : trimChars s = (s.dropWhile isBlank).rdropWhile isBlank := rfl

theorem dropWhile_eq_self_of_prefix {s t : List Char} (h : t <+: s)
    (hs : s.dropWhile isBlank = s) : t.dropWhile isBlank = t := by
  rw [List.dropWhile_eq_self_iff] at hs ⊢
  intro ht
  have hlen : 0 < s.length := lt_of_lt_of_le ht h.length_le
  rw [h.getElem ht]
  exact hs hlen

theorem trimChars_trimChars (s : List Char) : trimChars (trimChars s) = trimChars s := by
  have hfront : (trimChars s).dropWhile isBlank = trimChars s :=
    dropWhile_eq_self_of_prefix (List.rdropWhile_prefix isBlank (s.dropWhile isBlank))
      (List.dropWhile_idempotent isBlank s)
  rw [trimChars_eq, hfront, trimChars_eq, List.rdropWhile_idempotent]

theorem trim_trim (s : String) : trim (trim s) = trim s := by
  rw [trim, trim, String.toList_ofList, trimChars_trimChars]

theorem dropBlank_of_no_blank {s : List Char} (h : ∀ c ∈ s, isBlank c = false) :
    dropBlank s = s :=
  List.dropWhile_eq_self_iff.mpr fun hlen => by simp [h _ (List.getElem_mem hlen)]

theorem trimChars_surrounded {l t r : List Char} (hl : ∀ c ∈ l, isBlank c = true)
    (ht : ∀ c ∈ t, isBlank c = false) (hr : ∀ c ∈ r, isBlank c = true) :
    trimChars (l ++ t ++ r) = t := by
  have hfront : dropBlank (l ++ t ++ r) = dropBlank (t ++ r) := by
    rw [List.append_assoc]
    exact List.dropWhile_append_of_pos hl
  have hback : dropBlank (t ++ r).reverse = t.reverse := by
    have hblank : ∀ c ∈ r.reverse, isBlank c = true := fun c hc => hr c (List.mem_reverse.mp hc)
    rw [dropBlank, List.reverse_append, List.dropWhile_append_of_pos hblank]
    exact dropBlank_of_no_blank fun c hc => ht c (List.mem_reverse.mp hc)
  rw [trimChars, hfront]
  cases t with
  | nil => simp [dropBlank, List.dropWhile_eq_nil_iff.mpr hr]
  | cons c t =>
      have hkept : dropBlank (c :: t ++ r) = c :: t ++ r :=
        List.dropWhile_cons_of_neg (by simp [ht c (List.mem_cons_self ..)])
      rw [hkept, hback, List.reverse_reverse]

theorem trimChars_of_no_blank {s : List Char} (h : ∀ c ∈ s, isBlank c = false) :
    trimChars s = s := by
  simpa using trimChars_surrounded (l := []) (r := []) nofun h nofun

end GameTimeline.Text
