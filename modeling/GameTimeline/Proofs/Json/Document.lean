import GameTimeline.Json.Parser
import GameTimeline.Proofs.Json.Number
import GameTimeline.Proofs.Json.Quoted
import GameTimeline.Proofs.Table

namespace GameTimeline.Json

mutual

def spell : Json → Spelled
  | .null => .null
  | .bool b => .bool b
  | .num n => (Token.word? n.chars).getD .null
  | .str s => .str (escaped s)
  | .arr xs => .arr (spellItems xs)
  | .obj ms => .obj (spellMembers ms)

def spellItems : List Json → List Spelled
  | [] => []
  | x :: r => x.spell :: spellItems r

def spellMembers : List (String × Json) → List (List Char × Spelled)
  | [] => []
  | (k, x) :: r => (escaped k, x.spell) :: spellMembers r

end

mutual

def Legible (room : Nat) : Json → Prop
  | .num n => n.reread?.isSome
  | .arr xs => room ≠ 0 ∧ LegibleItems (room - 1) xs
  | .obj ms => room ≠ 0 ∧ LegibleMembers (room - 1) ms
  | _ => True

def LegibleItems (room : Nat) : List Json → Prop
  | [] => True
  | x :: r => x.Legible room ∧ LegibleItems room r

def LegibleMembers (room : Nat) : List (String × Json) → Prop
  | [] => True
  | (_, x) :: r => x.Legible room ∧ LegibleMembers room r

end

mutual

def Spellable : Json → Prop
  | .num n => ∃ t, Token.numeral? n.chars = some t
  | .arr xs => SpellableItems xs
  | .obj ms => SpellableMembers ms
  | _ => True

def SpellableItems : List Json → Prop
  | [] => True
  | x :: r => x.Spellable ∧ SpellableItems r

def SpellableMembers : List (String × Json) → Prop
  | [] => True
  | (_, x) :: r => x.Spellable ∧ SpellableMembers r

end

mutual

theorem Legible.spellable {room : Nat} : ∀ {j : Json}, j.Legible room → j.Spellable
  | .null, _ => trivial
  | .bool _, _ => trivial
  | .str _, _ => trivial
  | .num n, h => by
      obtain ⟨m, hm⟩ := Option.isSome_iff_exists.mp h
      obtain ⟨t, ht, -⟩ := Option.bind_eq_some_iff.mp hm
      exact ⟨t, ht⟩
  | .arr _, h => spellableItems h.2
  | .obj _, h => spellableMembers h.2

theorem spellableItems {room : Nat} : ∀ {xs : List Json}, LegibleItems room xs → SpellableItems xs
  | [], _ => trivial
  | _ :: _, h => ⟨h.1.spellable, spellableItems h.2⟩

theorem spellableMembers {room : Nat} :
    ∀ {ms : List (String × Json)}, LegibleMembers room ms → SpellableMembers ms
  | [], _ => trivial
  | (_, _) :: _, h => ⟨h.1.spellable, spellableMembers h.2⟩

end

mutual

def reread : Json → Json
  | .null => .null
  | .bool b => .bool b
  | .num n => .num (n.reread?.getD n)
  | .str s => .str s
  | .arr xs => .arr (rereadItems xs)
  | .obj ms => .obj (rereadMembers ms)

def rereadItems : List Json → List Json
  | [] => []
  | x :: r => x.reread :: rereadItems r

def rereadMembers : List (String × Json) → List (String × Json)
  | [] => []
  | (k, x) :: r => (k, x.reread) :: rereadMembers r

end

mutual

def tokens : Json → List Token
  | .null => [.scalar .null]
  | .bool b => [.scalar (.bool b)]
  | .num n => [.scalar (spell (.num n))]
  | .str s => [.text (escaped s)]
  | .arr [] => [.openArray, .closeArray]
  | .arr (x :: r) => .openArray :: (x.tokens ++ itemTokens r)
  | .obj [] => [.openObject, .closeObject]
  | .obj ((k, x) :: r) =>
      .openObject :: .text (escaped k) :: .colon :: (x.tokens ++ memberTokens r)

def itemTokens : List Json → List Token
  | [] => [.closeArray]
  | x :: r => .comma :: (x.tokens ++ itemTokens r)

def memberTokens : List (String × Json) → List Token
  | [] => [.closeObject]
  | (k, x) :: r => .comma :: .text (escaped k) :: .colon :: (x.tokens ++ memberTokens r)

end

namespace Token

variable {c : Char} {l r w : List Char}

theorem isWordChar_of_isSpace (h : isSpace c = true) : isWordChar c = false := by
  simp only [isSpace, Bool.or_eq_true, decide_eq_true_eq] at h
  rcases h with ((rfl | rfl) | rfl) | rfl <;> decide

theorem scan_space (h : isSpace c = true) : scan (c :: r) = scan r := by
  rw [scan, if_pos h]

theorem scan_spaces (h : ∀ c ∈ l, isSpace c = true) : scan (l ++ r) = scan r := by
  induction l with
  | nil => rfl
  | cons c l ih =>
      obtain ⟨hc, hl⟩ := List.forall_mem_cons.mp h
      rw [List.cons_append, scan_space hc, ih hl]

theorem scan_mark {t : Token} (h : mark? c = some t) : scan (c :: r) = (scan r).map (t :: ·) := by
  have hspace : isSpace c = false := by
    rw [Bool.eq_false_iff]
    intro hspace
    simp only [isSpace, Bool.or_eq_true, decide_eq_true_eq] at hspace
    rcases hspace with ((rfl | rfl) | rfl) | rfl <;> cases h
  have hquote : c ≠ '"' := by
    rintro rfl
    cases h
  rw [scan, if_neg (by simp [hspace]), if_neg hquote, h]

theorem scan_quoted (s : String) :
    scan (quoted s ++ r) = (scan r).map (.text (escaped s) :: ·) := by
  have hchars : quoted s ++ r = '"' :: (escaped s ++ '"' :: r) := by
    simp [quoted, escaped]
  rw [hchars, scan, if_neg (by decide), if_pos rfl]
  split
  · rename_i hnone
    rw [splitQuoted_escaped] at hnone
    cases hnone
  · rename_i _ _ hsome
    rw [splitQuoted_escaped] at hsome
    cases hsome
    rw [if_pos (isEscaped_escaped s)]

def NoWord (r : List Char) : Prop := ∀ c ∈ r.head?, isWordChar c = false

theorem noWord_nil : NoWord [] := by
  rintro _ ⟨⟩

theorem noWord_cons (h : isWordChar c = false) : NoWord (c :: r) := by
  rintro _ ⟨⟩
  exact h

theorem takeWhile_word (hw : ∀ c ∈ w, isWordChar c = true) (hr : NoWord r) :
    (w ++ r).takeWhile isWordChar = w := by
  rw [List.takeWhile_append_of_pos hw]
  cases r with
  | nil => simp
  | cons c r => simp [hr c rfl]

theorem scan_word {j : Spelled} (hj : word? w = some j) (hw : ∀ c ∈ w, isWordChar c = true)
    (hr : NoWord r) : scan (w ++ r) = (scan r).map (.scalar j :: ·) := by
  cases w with
  | nil => cases hj
  | cons c w =>
      obtain ⟨hc, hw⟩ := List.forall_mem_cons.mp hw
      have hspace : isSpace c = false := by
        rw [Bool.eq_false_iff]
        intro hspace
        rw [isWordChar_of_isSpace hspace] at hc
        cases hc
      have hquote : c ≠ '"' := by
        rintro rfl
        cases hc
      have hmark : mark? c = none := by
        rw [mark?.eq_def]
        split <;> first | rfl | cases hc
      have hdrop : (w ++ r).dropWhile isWordChar = r := by
        rw [List.dropWhile_append_of_pos hw]
        cases r with
        | nil => rfl
        | cons d r => simp [hr d rfl]
      rw [List.cons_append, scan, if_neg (by simp [hspace]), if_neg hquote, hmark]
      simp only [takeWhile_word hw hr, hdrop, hj, Option.bind_eq_bind, Option.bind_some]

theorem word?_of_numeral? {t : Numeral} (h : numeral? w = some t) : word? w = some (.num t) := by
  have hother (s : List Char) (hs : numeral? s = none) : w ≠ s := by
    rintro rfl
    rw [hs] at h
    cases h
  rw [word?, if_neg (hother _ rfl), if_neg (hother _ rfl), if_neg (hother _ rfl), h]
  rfl

theorem isSpace_newline (depth : Nat) : ∀ c ∈ newline depth, isSpace c = true := by
  rw [newline, List.forall_mem_cons]
  refine ⟨rfl, fun c hc => ?_⟩
  rw [(List.mem_replicate.mp hc).2]
  rfl

theorem noWord_newline (depth : Nat) (r : List Char) : NoWord (newline depth ++ r) :=
  noWord_cons rfl

end Token

theorem spell_of_numeral? {n : Number} {t : Numeral} (h : Token.numeral? n.chars = some t) :
    spell (.num n) = .num t := by
  rw [spell, Token.word?_of_numeral? h]
  rfl

theorem spell_num {n : Number} (h : n.reread?.isSome) :
    ∃ t, spell (.num n) = .num t ∧ t.toNumber? = some (n.reread?.getD n) := by
  obtain ⟨n', hn'⟩ := Option.isSome_iff_exists.mp h
  obtain ⟨t, ht, hread⟩ := Option.bind_eq_some_iff.mp hn'
  refine ⟨t, spell_of_numeral? ht, ?_⟩
  rw [hread, hn']
  rfl

theorem noWord_prettyItems (depth : Nat) (xs : List Json) (r : List Char) :
    Token.NoWord (prettyItems depth xs ++ r) := by
  cases xs with
  | nil =>
      rw [prettyItems, List.append_assoc]
      exact Token.noWord_newline depth _
  | cons x xs => exact Token.noWord_cons rfl

theorem noWord_prettyMembers (depth : Nat) (ms : List (String × Json)) (r : List Char) :
    Token.NoWord (prettyMembers depth ms ++ r) := by
  cases ms with
  | nil =>
      rw [prettyMembers, List.append_assoc]
      exact Token.noWord_newline depth _
  | cons m ms => exact Token.noWord_cons rfl

open Token in
mutual

theorem scan_prettyChars {depth : Nat} : ∀ {j : Json} {r : List Char}, j.Spellable →
    NoWord r → scan (j.prettyChars depth ++ r) = (scan r).map (j.tokens ++ ·)
  | .null, _, _, hr => scan_word rfl (by simp [prettyChars, isWordChar]) hr
  | .bool b, _, _, hr => by
      cases b
      · exact scan_word rfl (by simp [prettyChars, literal, isWordChar]) hr
      · exact scan_word rfl (by simp [prettyChars, literal, isWordChar]) hr
  | .num n, _, ⟨t, ht⟩, hr => by
      have hword := word?_of_numeral? ht
      rw [← spell_of_numeral? ht] at hword
      exact scan_word hword n.isWordChar_chars hr
  | .str s, r, _, _ => scan_quoted s
  | .arr [], _, _, _ => by
      simp [prettyChars, tokens, scan_mark (c := '[') rfl, scan_mark (c := ']') rfl,
        Function.comp_def]
  | .arr (x :: xs), r, h, _ => by
      have hx : scan (x.prettyChars (depth + 1) ++ (prettyItems depth xs ++ r)) =
          (scan (prettyItems depth xs ++ r)).map (x.tokens ++ ·) :=
        scan_prettyChars h.1 (noWord_prettyItems depth xs r)
      have hxs : scan (prettyItems depth xs ++ r) = (scan r).map (itemTokens xs ++ ·) :=
        scan_prettyItems h.2
      simp [prettyChars, tokens, scan_mark (c := '[') rfl, scan_spaces (isSpace_newline _), hx, hxs,
        Function.comp_def]
  | .obj [], _, _, _ => by
      simp [prettyChars, tokens, scan_mark (c := '{') rfl, scan_mark (c := '}') rfl,
        Function.comp_def]
  | .obj ((k, x) :: ms), r, h, _ => by
      have hx : scan (x.prettyChars (depth + 1) ++ (prettyMembers depth ms ++ r)) =
          (scan (prettyMembers depth ms ++ r)).map (x.tokens ++ ·) :=
        scan_prettyChars h.1 (noWord_prettyMembers depth ms r)
      have hms : scan (prettyMembers depth ms ++ r) = (scan r).map (memberTokens ms ++ ·) :=
        scan_prettyMembers h.2
      simp [prettyChars, tokens, scan_mark (c := '{') rfl, scan_spaces (isSpace_newline _),
        scan_quoted, scan_mark (c := ':') rfl, scan_space (c := ' ') rfl, hx, hms,
        Function.comp_def]

theorem scan_prettyItems {depth : Nat} : ∀ {xs : List Json} {r : List Char},
    SpellableItems xs → scan (prettyItems depth xs ++ r) = (scan r).map (itemTokens xs ++ ·)
  | [], r, _ => by
      simp [prettyItems, itemTokens, scan_spaces (isSpace_newline _), scan_mark (c := ']') rfl]
  | x :: xs, r, h => by
      have hx : scan (x.prettyChars (depth + 1) ++ (prettyItems depth xs ++ r)) =
          (scan (prettyItems depth xs ++ r)).map (x.tokens ++ ·) :=
        scan_prettyChars h.1 (noWord_prettyItems depth xs r)
      have hxs : scan (prettyItems depth xs ++ r) = (scan r).map (itemTokens xs ++ ·) :=
        scan_prettyItems h.2
      simp [prettyItems, itemTokens, scan_mark (c := ',') rfl, scan_spaces (isSpace_newline _), hx,
        hxs, Function.comp_def]

theorem scan_prettyMembers {depth : Nat} : ∀ {ms : List (String × Json)} {r : List Char},
    SpellableMembers ms →
      scan (prettyMembers depth ms ++ r) = (scan r).map (memberTokens ms ++ ·)
  | [], r, _ => by
      simp [prettyMembers, memberTokens, scan_spaces (isSpace_newline _), scan_mark (c := '}') rfl]
  | (k, x) :: ms, r, h => by
      have hx : scan (x.prettyChars (depth + 1) ++ (prettyMembers depth ms ++ r)) =
          (scan (prettyMembers depth ms ++ r)).map (x.tokens ++ ·) :=
        scan_prettyChars h.1 (noWord_prettyMembers depth ms r)
      have hms : scan (prettyMembers depth ms ++ r) = (scan r).map (memberTokens ms ++ ·) :=
        scan_prettyMembers h.2
      simp [prettyMembers, memberTokens, scan_mark (c := ',') rfl, scan_spaces (isSpace_newline _),
        scan_quoted, scan_mark (c := ':') rfl, scan_space (c := ' ') rfl, hx, hms,
        Function.comp_def]

end

namespace Parser

def Starts (e : Expect) : Prop := e = .value ∨ e = .itemOrClose

variable {places : List Place} {e : Expect} {r : List Token} {items : List Spelled}
  {members : List (List Char × Spelled)} {k : List Char} {t : Token} {s s' : State}

theorem step_scalar (he : Starts e) (s : Spelled) :
    step ⟨places, e⟩ (.scalar s) = some (close places s) := by
  rcases he with rfl | rfl <;> rfl

theorem step_text (he : Starts e) (t : List Char) :
    step ⟨places, e⟩ (.text t) = some (close places (.str t)) := by
  rcases he with rfl | rfl <;> rfl

theorem step_openArray (he : Starts e) :
    step ⟨places, e⟩ .openArray = some ⟨.items [] :: places, .itemOrClose⟩ := by
  rcases he with rfl | rfl <;> rfl

theorem step_openObject (he : Starts e) :
    step ⟨places, e⟩ .openObject = some ⟨places, .keyOrClose []⟩ := by
  rcases he with rfl | rfl <;> rfl

theorem step_comma_items : step ⟨.items items :: places, .commaOrClose⟩ .comma =
    some ⟨.items items :: places, .value⟩ := rfl

theorem step_comma_members : step ⟨.members members k :: places, .commaOrClose⟩ .comma =
    some ⟨places, .key members⟩ := rfl

theorem step_firstKey : step ⟨places, .keyOrClose members⟩ (.text k) =
    some ⟨places, .colon members k⟩ := rfl

theorem step_key : step ⟨places, .key members⟩ (.text k) = some ⟨places, .colon members k⟩ := rfl

theorem step_colon : step ⟨places, .colon members k⟩ .colon =
    some ⟨.members members k :: places, .value⟩ := rfl

theorem step_closeArray : step ⟨.items items :: places, .commaOrClose⟩ .closeArray =
    some (close places (.arr items.reverse)) := rfl

theorem step_closeObject : step ⟨.members members k :: places, .commaOrClose⟩ .closeObject =
    some (close places (.obj members.reverse)) := rfl

theorem foldlM_step (h : step s t = some s') : (t :: r).foldlM step s = r.foldlM step s' := by
  rw [List.foldlM_cons, h]
  rfl

mutual

theorem foldlM_tokens : ∀ {j : Json} {places : List Place} {e : Expect} {r : List Token},
    Starts e → (j.tokens ++ r).foldlM step ⟨places, e⟩ = r.foldlM step (close places j.spell)
  | .null, _, _, _, he => by
      rw [tokens, spell]
      exact foldlM_step (step_scalar he _)
  | .bool b, _, _, _, he => by
      rw [tokens, spell]
      exact foldlM_step (step_scalar he _)
  | .num n, _, _, _, he => by
      rw [tokens]
      exact foldlM_step (step_scalar he _)
  | .str s, _, _, _, he => by
      rw [tokens, spell]
      exact foldlM_step (step_text he _)
  | .arr [], _, _, _, he => by
      rw [tokens, spell, spellItems]
      exact (foldlM_step (step_openArray he)).trans (foldlM_step rfl)
  | .arr (x :: xs), places, e, r, he => by
      rw [tokens, List.cons_append, foldlM_step (step_openArray he), List.append_assoc,
        foldlM_tokens (.inr rfl), close, foldlM_itemTokens, spell, spellItems]
      rfl
  | .obj [], _, _, _, he => by
      rw [tokens, spell, spellMembers]
      exact (foldlM_step (step_openObject he)).trans (foldlM_step rfl)
  | .obj ((k, x) :: ms), places, e, r, he => by
      rw [tokens, List.cons_append, foldlM_step (step_openObject he), List.cons_append,
        foldlM_step step_firstKey, List.cons_append, foldlM_step step_colon, List.append_assoc,
        foldlM_tokens (.inl rfl), close, foldlM_memberTokens, spell, spellMembers]
      rfl

theorem foldlM_itemTokens : ∀ {xs : List Json} {places : List Place} {done : List Spelled}
    {r : List Token}, (itemTokens xs ++ r).foldlM step ⟨.items done :: places, .commaOrClose⟩ =
      r.foldlM step (close places (.arr (done.reverse ++ spellItems xs)))
  | [], _, _, _ => by
      rw [itemTokens, spellItems, List.append_nil]
      exact foldlM_step step_closeArray
  | x :: xs, places, done, r => by
      rw [itemTokens, List.cons_append, foldlM_step step_comma_items, List.append_assoc,
        foldlM_tokens (.inl rfl), close, foldlM_itemTokens, spellItems]
      simp

theorem foldlM_memberTokens : ∀ {ms : List (String × Json)} {places : List Place}
    {done : List (List Char × Spelled)} {k : List Char} {r : List Token},
    (memberTokens ms ++ r).foldlM step ⟨.members done k :: places, .commaOrClose⟩ =
      r.foldlM step (close places (.obj (done.reverse ++ spellMembers ms)))
  | [], _, _, _, _ => by
      rw [memberTokens, spellMembers, List.append_nil]
      exact foldlM_step step_closeObject
  | (k, x) :: ms, places, done, _, r => by
      rw [memberTokens, List.cons_append, foldlM_step step_comma_members, List.cons_append,
        foldlM_step step_key, List.cons_append, foldlM_step step_colon, List.append_assoc,
        foldlM_tokens (.inl rfl), close, foldlM_memberTokens, spellMembers]
      simp

end

end Parser

theorem ofText?_pretty {j : Json} (h : j.Spellable) {after : List Char}
    (hafter : ∀ c ∈ after, Token.isSpace c = true) :
    Spelled.ofText? (String.ofList (j.prettyChars 0 ++ after)) = some j.spell := by
  have hnoword : Token.NoWord after :=
    fun c hc => Token.isWordChar_of_isSpace (hafter c (List.mem_of_mem_head? hc))
  have hend : Token.scan after = some [] := by
    have hspaces := Token.scan_spaces (r := []) hafter
    rwa [List.append_nil, Token.scan.eq_def []] at hspaces
  have htokens : Token.scan (j.prettyChars 0 ++ after) = some j.tokens := by
    rw [scan_prettyChars h hnoword, hend]
    simp
  have hspell : j.tokens.foldlM Parser.step Parser.start = some (Parser.close [] j.spell) := by
    have hparse : (j.tokens ++ []).foldlM Parser.step Parser.start =
        [].foldlM Parser.step (Parser.close [] j.spell) := Parser.foldlM_tokens (.inl rfl)
    rwa [List.append_nil] at hparse
  rw [Spelled.ofText?, String.toList_ofList, htokens]
  simp [hspell, Parser.close, Parser.State.result?]

mutual

theorem value?_spell {room : Nat} : ∀ {j : Json}, j.Legible room →
    j.spell.value? room = some j.reread
  | .null, _ => by rw [spell, Spelled.value?, reread]
  | .bool b, _ => by rw [spell, Spelled.value?, reread]
  | .num n, h => by
      obtain ⟨t, hspell, hread⟩ := spell_num h
      rw [hspell, Spelled.value?, hread, reread]
      rfl
  | .str s, _ => by
      rw [spell, Spelled.value?, text?_escaped, reread]
      rfl
  | .arr xs, h => by
      rw [spell, Spelled.value?, if_neg h.1, itemValues?_spellItems h.2, reread]
      rfl
  | .obj ms, h => by
      rw [spell, Spelled.value?, if_neg h.1, memberValues?_spellMembers h.2, reread]
      rfl

theorem itemValues?_spellItems {room : Nat} : ∀ {xs : List Json}, LegibleItems room xs →
    Spelled.itemValues? room (spellItems xs) = some (rereadItems xs)
  | [], _ => by rw [spellItems, Spelled.itemValues?, rereadItems]
  | x :: xs, h => by
      rw [spellItems, Spelled.itemValues?, value?_spell h.1, itemValues?_spellItems h.2, rereadItems]
      rfl

theorem memberValues?_spellMembers {room : Nat} : ∀ {ms : List (String × Json)},
    LegibleMembers room ms →
      Spelled.memberValues? room (spellMembers ms) = some (rereadMembers ms)
  | [], _ => by rw [spellMembers, Spelled.memberValues?, rereadMembers]
  | (k, x) :: ms, h => by
      rw [spellMembers, Spelled.memberValues?, text?_escaped, value?_spell h.1,
        memberValues?_spellMembers h.2, rereadMembers]
      rfl

end

theorem spellItems_eq (xs : List Json) : spellItems xs = xs.map spell := by
  induction xs with
  | nil => rw [spellItems, List.map_nil]
  | cons x xs ih => rw [spellItems, ih, List.map_cons]

theorem spellMembers_eq (ms : List (String × Json)) :
    spellMembers ms = ms.map fun m => (escaped m.1, m.2.spell) := by
  induction ms with
  | nil => rw [spellMembers, List.map_nil]
  | cons m ms ih => rw [spellMembers, ih, List.map_cons]

theorem rereadMembers_eq (ms : List (String × Json)) :
    rereadMembers ms = ms.map fun m => (m.1, m.2.reread) := by
  induction ms with
  | nil => rw [rereadMembers, List.map_nil]
  | cons m ms ih => rw [rereadMembers, ih, List.map_cons]

theorem legibleItems_iff {room : Nat} {xs : List Json} :
    LegibleItems room xs ↔ ∀ x ∈ xs, x.Legible room := by
  induction xs with
  | nil => simp [LegibleItems]
  | cons x xs ih => simp [LegibleItems, ih]

theorem legibleMembers_iff {room : Nat} {ms : List (String × Json)} :
    LegibleMembers room ms ↔ ∀ m ∈ ms, m.2.Legible room := by
  induction ms with
  | nil => simp [LegibleMembers]
  | cons m ms ih => simp [LegibleMembers, ih]

theorem record?_spell {names : List String} {room : Nat} {ms : List (String × Json)}
    (hnames : ∀ m ∈ ms, m.1 ∈ names) (h : (obj ms).Legible room) :
    Spelled.record? names room (spell (obj ms)) = some (obj ms).reread := by
  have hlegible := legibleMembers_iff.mp h.2
  have hkeys : (spellMembers ms).mapM (fun m => (Spelled.text? m.1).map fun k => (k, m.2)) =
      some (ms.map fun m => (m.1, m.2.spell)) := by
    rw [spellMembers_eq, List.mapM_map]
    exact mapM_eq_pure fun m _ => by simp [text?_escaped]
  have hall : (ms.map fun m => (m.1, m.2.spell)).filter (fun m => names.contains m.1) =
      ms.map fun m => (m.1, m.2.spell) := by
    refine List.filter_eq_self.mpr fun e he => ?_
    obtain ⟨m, hm, rfl⟩ := List.mem_map.mp he
    exact List.contains_iff_mem.mpr (hnames m hm)
  have hvalues : (ms.map fun m => (m.1, m.2.spell)).mapM
      (fun m => (m.2.value? (room - 1)).map fun j => (m.1, j)) = some (rereadMembers ms) := by
    rw [rereadMembers_eq, List.mapM_map]
    exact mapM_eq_pure fun m hm => by simp [value?_spell (hlegible m hm)]
  simp only [spell, Spelled.record?, Spelled.recordBy?, hkeys, Option.bind_eq_bind, Option.bind_some, hall, hvalues,
    guard, h.1, ne_eq, not_false_eq_true, if_true, reread]
  rfl

end GameTimeline.Json
