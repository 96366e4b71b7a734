import GameTimeline.Proofs.Json.Document
import GameTimeline.Proofs.Json.Extensional
import GameTimeline.Proofs.Json.Numeral

namespace GameTimeline

namespace Number

open Json.Token (numeral?)

variable {n n' : Number} {x : Float}

theorem exists_figures (h : x.isFinite = true) :
    ∃ f : Decimal.Figures, (float x).chars = f.json ∧ f.Normal ∧ f.Spells x := by
  obtain ⟨f, hf, hnormal, hspells⟩ := Decimal.exists_figures h .even
  exact ⟨f, by rw [chars, hf], hnormal, hspells⟩

theorem isFigure_chars (h : n.isFinite = true) : ∀ c ∈ n.chars, Decimal.isFigure c = true := by
  cases n with
  | int n => exact Decimal.isFigure_decimal n
  | float x =>
      obtain ⟨f, hf, hnormal, -⟩ := exists_figures h
      rw [hf]
      exact f.isFigure_json hnormal.digits

theorem exists_numeral (h : n.isFinite = true) : ∃ t, numeral? n.chars = some t := by
  cases n with
  | int n => exact ⟨_, Json.Token.numeral?_decimal n⟩
  | float x =>
      obtain ⟨f, hf, hnormal, -⟩ := exists_figures h
      obtain ⟨t, ht, -⟩ := Decimal.Figures.reads_json hnormal
      exact ⟨t, by rw [hf, ht]⟩

theorem exists_chars (h : n.isFinite = true) :
    ∃ c r, n.chars = c :: r ∧ Decimal.isFigure c = true := by
  obtain ⟨t, ht⟩ := exists_numeral h
  have hall := isFigure_chars h
  cases hchars : n.chars with
  | nil =>
      rw [hchars] at ht
      cases ht
  | cons c r => exact ⟨c, r, rfl, hall c (hchars ▸ List.mem_cons_self ..)⟩

theorem chars_int_ne_float {n : ℤ} (h : x.isFinite = true) :
    (int n).chars ≠ (float x).chars := by
  intro heq
  obtain ⟨f, hf, hnormal, -⟩ := exists_figures h
  obtain ⟨t, ht, -, -, hmark⟩ := Decimal.Figures.reads_json hnormal
  rw [← hf, ← heq, chars, Json.Token.numeral?_decimal] at ht
  cases ht
  rcases hmark with hmark | hmark <;> cases hmark

theorem chars_injective (h : n.isFinite = true) (h' : n'.isFinite = true)
    (heq : n.chars = n'.chars) : n = n' := by
  cases n with
  | int n =>
      cases n' with
      | int n' =>
          have hint := congrArg Text.int? heq
          rw [chars, chars, Text.int?_decimal, Text.int?_decimal] at hint
          rw [Option.some.inj hint]
      | float x => exact absurd heq (chars_int_ne_float h')
  | float x =>
      cases n' with
      | int n' => exact absurd heq.symm (chars_int_ne_float h)
      | float x' =>
          obtain ⟨f, hf, hnormal, hspells⟩ := exists_figures h
          obtain ⟨f', hf', hnormal', hspells'⟩ := exists_figures h'
          obtain ⟨t, ht, hsign, hvalue, -⟩ := Decimal.Figures.reads_json hnormal
          obtain ⟨t', ht', hsign', hvalue', -⟩ := Decimal.Figures.reads_json hnormal'
          rw [← hf, heq, hf', ht'] at ht
          cases ht
          rw [hspells.eq hspells' (hsign.symm.trans hsign') (hvalue.symm.trans hvalue')]

end Number

namespace Json

open Token (NoWord isWordChar)

variable {j j' : Json} {xs ys : List Json} {ms ns : List (String × Json)} {n n' : Number}
  {s t : String} {w w' r r' : List Char}

theorem quoted_append_injective (h : quoted s ++ r = quoted t ++ r') : s = t ∧ r = r' := by
  have hquoted (s : String) (r : List Char) : quoted s ++ r = '"' :: (escaped s ++ '"' :: r) := by
    simp [quoted, escaped]
  rw [hquoted, hquoted] at h
  have hsplit := congrArg Token.splitQuoted (List.cons.inj h).2
  rw [splitQuoted_escaped, splitQuoted_escaped] at hsplit
  obtain ⟨hescaped, hr⟩ := Prod.mk.inj (Option.some.inj hsplit)
  have htext := congrArg Spelled.text? hescaped
  rw [text?_escaped, text?_escaped] at htext
  exact ⟨Option.some.inj htext, hr⟩

theorem word_append_injective (hw : ∀ c ∈ w, isWordChar c = true)
    (hw' : ∀ c ∈ w', isWordChar c = true) (hr : NoWord r) (hr' : NoWord r')
    (h : w ++ r = w' ++ r') : w = w' ∧ r = r' := by
  have hword := congrArg (List.takeWhile isWordChar) h
  rw [Token.takeWhile_word hw hr, Token.takeWhile_word hw' hr'] at hword
  rw [hword] at h
  exact ⟨hword, List.append_cancel_left h⟩

def mark : Json → Char
  | .null => 'n'
  | .bool _ => 't'
  | .num _ => '0'
  | .str _ => '"'
  | .arr _ => '['
  | .obj _ => '{'

def markOf (c : Char) : Char :=
  if c = 'f' then 't' else if Decimal.isFigure c then '0' else c

theorem exists_chars (h : j.Proper) : ∃ c r, j.chars = c :: r ∧ markOf c = j.mark := by
  cases h with
  | null => exact ⟨_, _, rfl, by decide⟩
  | bool b => cases b <;> exact ⟨_, _, rfl, by decide⟩
  | @num n hn =>
      obtain ⟨c, r, hc, hfigure⟩ := Number.exists_chars hn
      refine ⟨c, r, hc, ?_⟩
      have hf : c ≠ 'f' := by
        rintro rfl
        cases hfigure
      rw [markOf, if_neg hf, if_pos hfigure]
      rfl
  | str s => exact ⟨_, _, rfl, rfl⟩
  | @arr xs _ => cases xs <;> exact ⟨_, _, rfl, rfl⟩
  | @obj ms _ _ => cases ms <;> exact ⟨_, _, rfl, rfl⟩

theorem mark_eq (hj : j.Proper) (hj' : j'.Proper) (h : j.chars ++ r = j'.chars ++ r') :
    j.mark = j'.mark := by
  obtain ⟨c, l, hc, hmark⟩ := exists_chars hj
  obtain ⟨c', l', hc', hmark'⟩ := exists_chars hj'
  rw [hc, hc'] at h
  rw [← hmark, ← hmark', (List.cons.inj h).1]

theorem noWord_itemChars (xs : List Json) (r : List Char) : NoWord (itemChars xs ++ r) := by
  cases xs <;> exact Token.noWord_cons rfl

theorem noWord_memberChars (ms : List (String × Json)) (r : List Char) :
    NoWord (memberChars ms ++ r) := by
  cases ms <;> exact Token.noWord_cons rfl

def Readable (j : Json) : Prop :=
  ∀ {j' : Json} {r r' : List Char}, j'.Proper → NoWord r → NoWord r' →
    j.chars ++ r = j'.chars ++ r' → j = j' ∧ r = r'

theorem itemChars_append_injective (hx : ∀ x ∈ xs, x.Readable) (hy : ∀ y ∈ ys, y.Proper)
    (h : itemChars xs ++ r = itemChars ys ++ r') : xs = ys ∧ r = r' := by
  induction xs generalizing ys with
  | nil =>
      cases ys with
      | nil => exact ⟨rfl, (List.cons.inj h).2⟩
      | cons y ys => simp [itemChars] at h
  | cons x xs ih =>
      cases ys with
      | nil => simp [itemChars] at h
      | cons y ys =>
          obtain ⟨hx, hxs⟩ := List.forall_mem_cons.mp hx
          obtain ⟨hy, hys⟩ := List.forall_mem_cons.mp hy
          simp only [itemChars, List.cons_append, List.append_assoc, List.cons.injEq,
            true_and] at h
          obtain ⟨rfl, hrest⟩ := hx hy (noWord_itemChars _ _) (noWord_itemChars _ _) h
          obtain ⟨rfl, hr⟩ := ih hxs hys hrest
          exact ⟨rfl, hr⟩

theorem memberChars_append_injective (hm : ∀ m ∈ ms, m.2.Readable) (hn : ∀ n ∈ ns, n.2.Proper)
    (h : memberChars ms ++ r = memberChars ns ++ r') : ms = ns ∧ r = r' := by
  induction ms generalizing ns with
  | nil =>
      cases ns with
      | nil => exact ⟨rfl, (List.cons.inj h).2⟩
      | cons n ns => simp [memberChars] at h
  | cons m ms ih =>
      cases ns with
      | nil => simp [memberChars] at h
      | cons n ns =>
          obtain ⟨hm, hms⟩ := List.forall_mem_cons.mp hm
          obtain ⟨hn, hns⟩ := List.forall_mem_cons.mp hn
          obtain ⟨k, x⟩ := m
          obtain ⟨k', y⟩ := n
          simp only [memberChars, List.cons_append, List.append_assoc, List.cons.injEq,
            true_and] at h
          obtain ⟨rfl, hvalue⟩ := quoted_append_injective h
          obtain ⟨rfl, hrest⟩ := hm hn (noWord_memberChars _ _) (noWord_memberChars _ _)
            (List.cons.inj hvalue).2
          obtain ⟨rfl, hr⟩ := ih hms hns hrest
          exact ⟨rfl, hr⟩

theorem chars_append_ne_cons (h : j.Proper) : j.chars ++ r ≠ ']' :: r' := by
  obtain ⟨c, l, hc, hmark⟩ := exists_chars h
  rw [hc]
  rintro ⟨⟩
  cases j <;> cases hmark

theorem arr_append_injective (hp : ∀ x ∈ xs, x.Proper) (hx : ∀ x ∈ xs, x.Readable)
    (hy : ∀ y ∈ ys, y.Proper) (h : (Json.arr xs).chars ++ r = (Json.arr ys).chars ++ r') :
    xs = ys ∧ r = r' := by
  cases xs with
  | nil =>
      cases ys with
      | nil => exact ⟨rfl, List.append_cancel_left h⟩
      | cons y ys =>
          have hend : ']' :: r = y.chars ++ (itemChars ys ++ r') := by simpa [chars] using h
          exact absurd hend.symm (chars_append_ne_cons (hy y (List.mem_cons_self ..)))
  | cons x xs =>
      cases ys with
      | nil =>
          have hend : x.chars ++ (itemChars xs ++ r) = ']' :: r' := by simpa [chars] using h
          exact absurd hend (chars_append_ne_cons (hp x (List.mem_cons_self ..)))
      | cons y ys =>
          apply itemChars_append_injective hx hy
          simpa [chars, itemChars] using h

theorem obj_append_injective (hm : ∀ m ∈ ms, m.2.Readable) (hn : ∀ n ∈ ns, n.2.Proper)
    (h : (Json.obj ms).chars ++ r = (Json.obj ns).chars ++ r') : ms = ns ∧ r = r' := by
  cases ms with
  | nil =>
      cases ns with
      | nil => exact ⟨rfl, List.append_cancel_left h⟩
      | cons n ns => simp [chars, quoted] at h
  | cons m ms =>
      cases ns with
      | nil => simp [chars, quoted] at h
      | cons n ns =>
          apply memberChars_append_injective hm hn
          simpa [chars, memberChars] using h

theorem readable (hj : j.Proper) : j.Readable := by
  induction j using Json.induct with
  | null =>
      intro j' r r' hj' _ _ h
      have hmark := mark_eq hj hj' h
      cases j' with
      | null => exact ⟨rfl, List.append_cancel_left h⟩
      | _ => cases hmark
  | bool b =>
      intro j' r r' hj' hr hr' h
      have hmark := mark_eq hj hj' h
      cases j' with
      | bool b' =>
          cases b <;> cases b'
          · exact ⟨rfl, List.append_cancel_left h⟩
          · cases h
          · cases h
          · exact ⟨rfl, List.append_cancel_left h⟩
      | _ => cases hmark
  | num n =>
      intro j' r r' hj' hr hr' h
      have hmark := mark_eq hj hj' h
      cases j' with
      | num n' =>
          cases hj with
          | num hn =>
          cases hj' with
          | num hn' =>
          obtain ⟨hchars, hr⟩ :=
            word_append_injective n.isWordChar_chars n'.isWordChar_chars hr hr' h
          exact ⟨congrArg Json.num (Number.chars_injective hn hn' hchars), hr⟩
      | _ => cases hmark
  | str s =>
      intro j' r r' hj' _ _ h
      have hmark := mark_eq hj hj' h
      cases j' with
      | str t =>
          obtain ⟨rfl, hr⟩ := quoted_append_injective h
          exact ⟨rfl, hr⟩
      | _ => cases hmark
  | arr xs ih =>
      intro j' r r' hj' _ _ h
      have hmark := mark_eq hj hj' h
      cases j' with
      | arr ys =>
          cases hj with
          | arr hxs =>
          cases hj' with
          | arr hys =>
          obtain ⟨rfl, hr⟩ := arr_append_injective hxs (fun x hx => ih x hx (hxs x hx)) hys h
          exact ⟨rfl, hr⟩
      | _ => cases hmark
  | obj ms ih =>
      intro j' r r' hj' _ _ h
      have hmark := mark_eq hj hj' h
      cases j' with
      | obj ns =>
          cases hj with
          | obj _ hms =>
          cases hj' with
          | obj _ hns =>
          obtain ⟨rfl, hr⟩ := obj_append_injective (fun m hm => ih m hm (hms m hm)) hns h
          exact ⟨rfl, hr⟩
      | _ => cases hmark

theorem compact_injective (hj : j.Proper) (hj' : j'.Proper) (h : j.compact = j'.compact) :
    j = j' := by
  have hchars : j.chars ++ [] = j'.chars ++ [] := by
    simpa using String.ofList_injective h
  exact (readable hj hj' Token.noWord_nil Token.noWord_nil hchars).1

end Json

end GameTimeline
