import GameTimeline.Field.Model
import GameTimeline.Proofs.Text.Notation
import GameTimeline.Proofs.Traversal
import Mathlib.Algebra.Group.Nat.Defs
import Mathlib.Data.List.Forall2

namespace GameTimeline

namespace Clock

variable {g : List Char} {gs : List (List Char)} {parts : List Int64} {h m s t : Int64} {i : Int64}
  {n : Nat}

structure Group (g : List Char) (n : Nat) : Prop where
  digits : Text.Denotes g n
  fits : n < 2 ^ 63

inductive Shows : List Char → Nat → Prop
  | minutes {gm gs : List Char} {m s : Nat} (hm : Group gm m) (hs : Group gs s) (hs60 : s < 60) :
      Shows ([':'].intercalate [gm, gs]) (60 * m + s)
  | hours {gh gm gs : List Char} {h m s : Nat} (hh : Group gh h) (hm : Group gm m)
      (hs : Group gs s) (hm60 : m < 60) (hs60 : s < 60) :
      Shows ([':'].intercalate [gh, gm, gs]) (3600 * h + 60 * m + s)

theorem groups_eq_splitOn (l : List Char) : groups l = l.splitOn ':' := by
  induction l with
  | nil => rfl
  | cons c l ih =>
      simp only [groups, ih, List.splitOn, List.splitOnP_cons_eq_if_modifyHead, beq_iff_eq]
      split
      · rfl
      · cases hl : l.splitOnP (· == ':') with
        | nil => exact absurd hl (List.splitOnP_ne_nil _ _)
        | cons g gs => rfl

theorem groups_intercalate (hne : gs ≠ []) (hgs : ∀ g ∈ gs, ':' ∉ g) :
    groups ([':'].intercalate gs) = gs := by
  rw [groups_eq_splitOn, List.splitOn_intercalate ':' hgs hne]

theorem intercalate_groups (l : List Char) : [':'].intercalate (groups l) = l := by
  rw [groups_eq_splitOn, List.intercalate_splitOn]

theorem Group.colon_notMem (h : Group g n) : ':' ∉ g := fun hmem =>
  absurd (h.digits.isDigit ':' hmem) (by decide)

theorem group?_eq_some_iff : group? g = some i ↔ ∃ n, Group g n ∧ i.toInt = n := by
  simp only [group?, Option.bind_eq_some_iff, Text.nat?_eq_some_iff, Text.toInt64?_eq_some_iff]
  constructor
  · rintro ⟨n, hn, hi⟩
    have hlt := i.toInt_lt
    exact ⟨n, ⟨hn, by omega⟩, hi⟩
  · rintro ⟨n, hn, hi⟩
    exact ⟨n, hn.digits, hi⟩

theorem lt_sixty_iff (hm : m.toInt = n) : m < 60 ↔ n < 60 := by
  have hsixty : (60 : Int64).toInt = 60 := rfl
  rw [Int64.lt_iff_toInt_lt, hm, hsixty]
  omega

theorem toInt_withinHour {a b : Nat} (hm : m.toInt = a) (hs : s.toInt = b) (ha : a < 60)
    (hb : b < 60) : (m * 60).toInt = 60 * a ∧ (m * 60 + s).toInt = 60 * a + b := by
  have hsixty : (60 : Int64).toInt = 60 := rfl
  have hproduct : (m * 60).toInt = 60 * a := by
    rw [Int64.toInt_mul, hsixty, hm, Int.mul_comm]
    exact Int.bmod_eq_of_le (by omega) (by omega)
  refine ⟨hproduct, ?_⟩
  rw [Int64.toInt_add, hproduct, hs]
  exact Int.bmod_eq_of_le (by omega) (by omega)

theorem withinHour_of_parts
    (hparts : List.Forall₂ (fun g i => group? g = some i) gs [h, m, s]) (hm60 : m < 60)
    (hs60 : s < 60) :
    (m * 60).toInt = 60 * m.toInt ∧ (m * 60 + s).toInt = 60 * m.toInt + s.toInt := by
  simp only [List.forall₂_cons_right_iff, List.forall₂_nil_right_iff] at hparts
  obtain ⟨_, _, -, ⟨gm, _, hm, ⟨gs, _, hs, -, -⟩, -⟩, -⟩ := hparts
  obtain ⟨a, -, hma⟩ := group?_eq_some_iff.mp hm
  obtain ⟨b, -, hsb⟩ := group?_eq_some_iff.mp hs
  rw [hma, hsb]
  exact toInt_withinHour hma hsb ((lt_sixty_iff hma).mp hm60) ((lt_sixty_iff hsb).mp hs60)

theorem times?_eq_some_iff : times? m s = some t ↔ t.toInt = m.toInt * s.toInt :=
  Text.toInt64?_eq_some_iff

theorem plus?_eq_some_iff : plus? m s = some t ↔ t.toInt = m.toInt + s.toInt :=
  Text.toInt64?_eq_some_iff

theorem times?_plus?_eq_some_iff {a b c : Int64} (ha : 0 ≤ a.toInt) (hb : 0 ≤ b.toInt)
    (hc : 0 ≤ c.toInt) :
    (times? a b).bind (plus? · c) = some t ↔ t.toInt = a.toInt * b.toInt + c.toInt := by
  simp only [Option.bind_eq_some_iff, times?_eq_some_iff, plus?_eq_some_iff]
  constructor
  · rintro ⟨x, hx, ht⟩
    rw [ht, hx]
  · intro ht
    have hproduct : 0 ≤ a.toInt * b.toInt := Int.mul_nonneg ha hb
    have hlt := t.toInt_lt
    have hx : (Int64.ofInt (a.toInt * b.toInt)).toInt = a.toInt * b.toInt :=
      Int64.toInt_ofInt_of_le (by omega) (by omega)
    exact ⟨_, hx, by rw [hx, ht]⟩

theorem seconds?_minutes {a b : Nat} (hm : m.toInt = a) (hs : s.toInt = b) :
    seconds? [m, s] = some t ↔ b < 60 ∧ t.toInt = (60 * a + b : Nat) := by
  have hsixty : (60 : Int64).toInt = 60 := rfl
  have hsum := times?_plus?_eq_some_iff (a := m) (b := 60) (c := s) (t := t) (by omega) (by decide)
    (by omega)
  rw [seconds?]
  split
  · rename_i hlt
    have hb := (lt_sixty_iff hs).mp hlt
    rw [hsum, hm, hs, hsixty]
    omega
  · rename_i hlt
    have hb : ¬ b < 60 := fun hb => hlt ((lt_sixty_iff hs).mpr hb)
    simp [hb]

theorem seconds?_hours {a b c : Nat} (hh : h.toInt = a) (hm : m.toInt = b) (hs : s.toInt = c) :
    seconds? [h, m, s] = some t ↔
      b < 60 ∧ c < 60 ∧ t.toInt = (3600 * a + 60 * b + c : Nat) := by
  have hhour : (3600 : Int64).toInt = 3600 := rfl
  rw [seconds?]
  split
  · rename_i hlt
    have hb := (lt_sixty_iff hm).mp hlt.1
    have hc := (lt_sixty_iff hs).mp hlt.2
    have hrest := (toInt_withinHour hm hs hb hc).2
    rw [times?_plus?_eq_some_iff (by omega) (by decide) (by omega), hrest, hh, hhour]
    omega
  · rename_i hlt
    simp only [reduceCtorEq, false_iff]
    rintro ⟨hb, hc, -⟩
    exact hlt ⟨(lt_sixty_iff hm).mpr hb, (lt_sixty_iff hs).mpr hc⟩

theorem parts_of_seconds? (ht : seconds? parts = some t) :
    (∃ m s, parts = [m, s]) ∨ ∃ h m s, parts = [h, m, s] := by
  rw [seconds?.eq_def] at ht
  split at ht
  · exact .inl ⟨_, _, rfl⟩
  · exact .inr ⟨_, _, _, rfl⟩
  · cases ht

theorem shows_of_parts {l : List Char}
    (hparts : List.Forall₂ (fun g i => group? g = some i) (groups l) parts)
    (ht : seconds? parts = some t) : ∃ n : Nat, Shows l n ∧ t.toInt = n := by
  rw [← intercalate_groups l]
  generalize groups l = gs at hparts
  rcases parts_of_seconds? ht with ⟨m, s, rfl⟩ | ⟨h, m, s, rfl⟩
  · simp only [List.forall₂_cons_right_iff, List.forall₂_nil_right_iff] at hparts
    obtain ⟨gm, _, hm, ⟨gs, _, hs, rfl, rfl⟩, rfl⟩ := hparts
    obtain ⟨a, ha, hma⟩ := group?_eq_some_iff.mp hm
    obtain ⟨b, hb, hsb⟩ := group?_eq_some_iff.mp hs
    obtain ⟨hb60, ht⟩ := (seconds?_minutes hma hsb).mp ht
    exact ⟨_, .minutes ha hb hb60, ht⟩
  · simp only [List.forall₂_cons_right_iff, List.forall₂_nil_right_iff] at hparts
    obtain ⟨gh, _, hh, ⟨gm, _, hm, ⟨gs, _, hs, rfl, rfl⟩, rfl⟩, rfl⟩ := hparts
    obtain ⟨a, ha, hha⟩ := group?_eq_some_iff.mp hh
    obtain ⟨b, hb, hmb⟩ := group?_eq_some_iff.mp hm
    obtain ⟨c, hc, hsc⟩ := group?_eq_some_iff.mp hs
    obtain ⟨hb60, hc60, ht⟩ := (seconds?_hours hha hmb hsc).mp ht
    exact ⟨_, .hours ha hb hc hb60 hc60, ht⟩

theorem Group.exists_word (h : Group g n) : ∃ i : Int64, i.toInt = n ∧ group? g = some i := by
  have hi : (Int64.ofNat n).toInt = n := Int64.toInt_ofNat_of_lt h.fits
  exact ⟨_, hi, group?_eq_some_iff.mpr ⟨n, h, hi⟩⟩

theorem parts_of_shows {l : List Char} (h : Shows l n) (ht : t.toInt = n) :
    ∃ parts, List.Forall₂ (fun g i => group? g = some i) (groups l) parts ∧
      seconds? parts = some t := by
  cases h with
  | minutes hm hs hs60 =>
      rw [groups_intercalate (by simp) (by simp [hm.colon_notMem, hs.colon_notMem])]
      obtain ⟨m, hma, hm⟩ := hm.exists_word
      obtain ⟨s, hsb, hs⟩ := hs.exists_word
      exact ⟨[m, s], .cons hm (.cons hs .nil), (seconds?_minutes hma hsb).mpr ⟨hs60, ht⟩⟩
  | hours hh hm hs hm60 hs60 =>
      rw [groups_intercalate (by simp)
        (by simp [hh.colon_notMem, hm.colon_notMem, hs.colon_notMem])]
      obtain ⟨h, hha, hh⟩ := hh.exists_word
      obtain ⟨m, hmb, hm⟩ := hm.exists_word
      obtain ⟨s, hsc, hs⟩ := hs.exists_word
      exact ⟨[h, m, s], .cons hh (.cons hm (.cons hs .nil)),
        (seconds?_hours hha hmb hsc).mpr ⟨hm60, hs60, ht⟩⟩

theorem parse?_eq_some_iff {text : String} :
    parse? text = some t ↔ ∃ n : Nat, Shows (Text.trimChars text.toList) n ∧ t.toInt = n := by
  simp only [parse?, Option.bind_eq_bind, Option.bind_eq_some_iff, mapM_eq_some_iff]
  constructor
  · rintro ⟨parts, hparts, ht⟩
    exact shows_of_parts hparts ht
  · rintro ⟨n, hn, ht⟩
    exact parts_of_shows hn ht

theorem nonneg_of_parse? {text : String} (h : parse? text = some t) : 0 ≤ t := by
  obtain ⟨n, -, ht⟩ := parse?_eq_some_iff.mp h
  rw [Int64.le_iff_toInt_le, ht]
  exact Int.natCast_nonneg n

def padded (k n : Nat) : List Char := List.replicate k '0' ++ Nat.toDigits 10 n

def minuteForm (i j t : Nat) : String :=
  String.ofList ([':'].intercalate [padded i (t / 60), padded j (t % 60)])

def hourForm (i j k t : Nat) : String :=
  String.ofList ([':'].intercalate [padded i (t / 3600), padded j (t / 60 % 60), padded k (t % 60)])

theorem group_padded (k : Nat) (hn : n < 2 ^ 63) : Group (padded k n) n :=
  ⟨Text.denotes_zeros k n, hn⟩

theorem shows_minuteForm (i j : Nat) (hn : n < 2 ^ 63) : Shows (minuteForm i j n).toList n := by
  have hm := group_padded (n := n / 60) i (by omega)
  have hs := group_padded (n := n % 60) j (by omega)
  have h := Shows.minutes hm hs (Nat.mod_lt _ (by decide))
  rwa [Nat.div_add_mod, ← String.toList_ofList (l := List.intercalate _ _)] at h

theorem shows_hourForm (i j k : Nat) (hn : n < 2 ^ 63) : Shows (hourForm i j k n).toList n := by
  have hh := group_padded (n := n / 3600) i (by omega)
  have hm := group_padded (n := n / 60 % 60) j (by omega)
  have hs := group_padded (n := n % 60) k (by omega)
  have h := Shows.hours hh hm hs (Nat.mod_lt _ (by decide)) (Nat.mod_lt _ (by decide))
  have hsum : 3600 * (n / 3600) + 60 * (n / 60 % 60) + n % 60 = n := by omega
  rwa [hsum, ← String.toList_ofList (l := List.intercalate _ _)] at h

theorem Shows.colon_or_digit {l : List Char} (h : Shows l n) :
    ∀ c ∈ l, c = ':' ∨ c.isDigit = true := by
  intro c hc
  cases h with
  | minutes hm hs hs60 =>
      simp only [List.intercalate_cons_cons, List.intercalate_singleton, List.mem_append,
        List.mem_singleton] at hc
      rcases hc with (hc | hc) | hc
      · exact .inr (hm.digits.isDigit c hc)
      · exact .inl hc
      · exact .inr (hs.digits.isDigit c hc)
  | hours hh hm hs hm60 hs60 =>
      simp only [List.intercalate_cons_cons, List.intercalate_singleton, List.mem_append,
        List.mem_singleton] at hc
      rcases hc with (hc | hc) | (hc | hc) | hc
      · exact .inr (hh.digits.isDigit c hc)
      · exact .inl hc
      · exact .inr (hm.digits.isDigit c hc)
      · exact .inl hc
      · exact .inr (hs.digits.isDigit c hc)

theorem Shows.trimmed {l : List Char} (h : Shows l n) : Text.trimChars l = l := by
  refine Text.trimChars_of_no_blank fun c hc => ?_
  rcases h.colon_or_digit c hc with rfl | hdigit
  · rfl
  · exact Text.isBlank_of_isDigit hdigit

theorem Shows.colon_mem {l : List Char} (h : Shows l n) : ':' ∈ l := by
  cases h with
  | minutes hm hs hs60 => simp
  | hours hh hm hs hm60 hs60 => simp

end Clock

namespace FieldModel

variable {m : FieldModel} {s : String}

theorem normalize_clock (hm : m.domain = .timer) (hs : ':' ∈ s.toList) :
    m.normalize (.text s) = (Clock.parse? s).map .int := by
  simp only [normalize, hm, Domain.normalize, Domain.normalizeTimer]
  exact if_pos (List.contains_iff_mem.mpr hs)

theorem normalize_clock_eq_some_iff (hm : m.domain = .timer) (hs : ':' ∈ s.toList)
    {v : FieldValue} :
    m.normalize (.text s) = some v ↔ ∃ n : Nat, Clock.Shows (Text.trimChars s.toList) n ∧
      n < 2 ^ 63 ∧ v = .int (Int64.ofNat n) := by
  simp only [normalize_clock hm hs, Option.map_eq_some_iff, Clock.parse?_eq_some_iff]
  constructor
  · rintro ⟨t, ⟨n, hn, ht⟩, rfl⟩
    have hlt := t.toInt_lt
    have hlt : n < 2 ^ 63 := by omega
    refine ⟨n, hn, hlt, congrArg _ (Int64.toInt_inj.mp ?_)⟩
    rw [Int64.toInt_ofNat_of_lt hlt, ht]
  · rintro ⟨n, hn, hlt, rfl⟩
    exact ⟨Int64.ofNat n, ⟨n, hn, Int64.toInt_ofNat_of_lt hlt⟩, rfl⟩

theorem normalize_clock_eq_none_iff (hm : m.domain = .timer) (hs : ':' ∈ s.toList) :
    m.normalize (.text s) = none ↔
      ¬ ∃ n : Nat, Clock.Shows (Text.trimChars s.toList) n ∧ n < 2 ^ 63 := by
  constructor
  · rintro hnone ⟨n, hn, hlt⟩
    have hread := (normalize_clock_eq_some_iff hm hs).mpr ⟨n, hn, hlt, rfl⟩
    cases hnone.symm.trans hread
  · intro hno
    cases hv : m.normalize (.text s) with
    | none => rfl
    | some v =>
        obtain ⟨n, hn, hlt, -⟩ := (normalize_clock_eq_some_iff hm hs).mp hv
        exact absurd ⟨n, hn, hlt⟩ hno

theorem normalize_of_shows (hm : m.domain = .timer) {n : Nat} (h : Clock.Shows s.toList n)
    (hlt : n < 2 ^ 63) : m.normalize (.text s) = some (.int (Int64.ofNat n)) :=
  (normalize_clock_eq_some_iff hm h.colon_mem).mpr ⟨n, h.trimmed.symm ▸ h, hlt, rfl⟩

theorem clock_exact (hm : m.domain = .timer) :
    (∀ s : String, ':' ∈ s.toList →
      (∀ v, m.normalize (.text s) = some v ↔ ∃ n : Nat,
        Clock.Shows (Text.trimChars s.toList) n ∧ n < 2 ^ 63 ∧ v = .int (Int64.ofNat n)) ∧
      (m.normalize (.text s) = none ↔
        ¬ ∃ n : Nat, Clock.Shows (Text.trimChars s.toList) n ∧ n < 2 ^ 63)) ∧
    (∀ (s : String) (hours minutes seconds : Int64),
      (Clock.groups (Text.trimChars s.toList)).mapM Clock.group? =
        some [hours, minutes, seconds] → minutes < 60 → seconds < 60 →
      (minutes * 60).toInt = 60 * minutes.toInt ∧
        (minutes * 60 + seconds).toInt = 60 * minutes.toInt + seconds.toInt) ∧
    (∀ n < 2 ^ 63, ∀ i j k : Nat,
      m.normalize (.text (Clock.minuteForm i j n)) = some (.int (Int64.ofNat n)) ∧
      m.normalize (.text (Clock.hourForm i j k n)) = some (.int (Int64.ofNat n))) := by
  refine ⟨?read, ?exact, ?written⟩
  case read =>
    intro s hs
    exact ⟨fun v => normalize_clock_eq_some_iff hm hs, normalize_clock_eq_none_iff hm hs⟩
  case exact =>
    intro s hours minutes seconds hparts
    exact Clock.withinHour_of_parts (mapM_eq_some_iff.mp hparts)
  case written =>
    intro n hlt i j k
    exact ⟨normalize_of_shows hm (Clock.shows_minuteForm i j hlt) hlt,
      normalize_of_shows hm (Clock.shows_hourForm i j k hlt) hlt⟩

theorem clock_exact_longest :
    ∃ m : FieldModel, m.domain = .timer ∧ m.normalize (.text " 75:02 ") = some (.int 4502) ∧
      m.normalize (.text "153722867280912930:07") = some (.int 9223372036854775807) ∧
      m.normalize (.text "002562047788015215:30:07") = some (.int 9223372036854775807) ∧
      ¬ ∃ n : Nat, Clock.Shows "153722867280912930:08".toList n ∧ n < 2 ^ 63 := by
  have hm : (FieldModel.new "clock" .timer .free).domain = .timer := rfl
  obtain ⟨hread, -, hwritten⟩ := clock_exact hm
  have hshort : Clock.Shows (Text.trimChars " 75:02 ".toList) 4502 :=
    Clock.Shows.minutes (Clock.group_padded (n := 75) 0 (by decide))
      (Clock.group_padded (n := 2) 1 (by decide)) (by decide)
  have hshort := ((hread " 75:02 " (by decide)).1 _).mpr ⟨4502, hshort, by decide, rfl⟩
  have hmany := (hread "153722867280912930:08" (by decide)).2.mp (by decide)
  obtain ⟨hminutes, -⟩ := hwritten 9223372036854775807 (by decide) 0 1 0
  obtain ⟨-, hhours⟩ := hwritten 9223372036854775807 (by decide) 2 0 1
  exact ⟨_, hm, hshort, hminutes, hhours, hmany⟩

end FieldModel

end GameTimeline
