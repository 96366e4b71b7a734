import GameTimeline.Field.Model
import GameTimeline.Proofs.Decimal.Spelling
import GameTimeline.Proofs.Text.Notation

namespace GameTimeline

variable {s : String} {n : Int64} {d : List Char}

def Dressed (d : List Char) (s : String) : Prop :=
  ∃ l t r : List Char, s.toList = l ++ t ++ r ∧ (∀ c ∈ l, Text.isBlank c = true) ∧
    t.filter (· != ',') = d ∧ ∀ c ∈ r, Text.isBlank c = true

theorem Dressed.cleanDigits_eq (h : Dressed d s) (hd : ∀ c ∈ d, Text.isBlank c = false) :
    cleanDigits s.toList = d := by
  obtain ⟨l, t, r, hs, hl, ht, hr⟩ := h
  have hblank : ∀ c ∈ t, Text.isBlank c = false := by
    intro c hc
    by_cases hcomma : c = ','
    · subst hcomma
      rfl
    · exact hd c (ht ▸ List.mem_filter.mpr ⟨hc, by simpa using hcomma⟩)
  rw [cleanDigits, hs, Text.trimChars_surrounded hl hblank hr, ht]

namespace FieldValue

theorem whole?_text_eq_some_iff :
    (FieldValue.text s).whole? = some n ↔
      Text.DenotesSigned (cleanDigits s.toList) n.toInt :=
  Text.int64?_eq_some_iff

theorem whole?_text_eq_none_iff :
    (FieldValue.text s).whole? = none ↔
      ¬ ∃ n : Int64, Text.DenotesSigned (cleanDigits s.toList) n.toInt := by
  simp only [← whole?_text_eq_some_iff]
  rw [Option.eq_none_iff_forall_ne_some, not_exists]

theorem whole?_of_dressed (h : Dressed (Text.decimal n.toInt) s) :
    (FieldValue.text s).whole? = some n := by
  have hclean := h.cleanDigits_eq fun c hc =>
    Decimal.isBlank_of_isFigure (Decimal.isFigure_decimal n.toInt c hc)
  rw [whole?, hclean, Text.int64?_decimal]

theorem int_filter_eq_some_iff {p : Int64 → Bool} {raw v : FieldValue} :
    (raw.whole?.filter p).map .int = some v ↔
      ∃ n, raw.whole? = some n ∧ p n = true ∧ v = .int n := by
  simp only [Option.map_eq_some_iff, Option.filter_eq_some_iff, and_assoc]
  simp only [eq_comm]

end FieldValue

namespace FieldModel

variable {m : FieldModel} {raw v : FieldValue} {min max : Int64}

theorem normalize_nonNegative (hm : m.domain = .nonNegative) :
    m.normalize raw = some v ↔ ∃ n, raw.whole? = some n ∧ 0 ≤ n ∧ v = .int n := by
  rw [normalize, hm, Domain.normalize, FieldValue.int_filter_eq_some_iff]
  simp only [decide_eq_true_eq]

theorem normalize_bounded (hm : m.domain = .bounded min max) :
    m.normalize raw = some v ↔
      ∃ n, raw.whole? = some n ∧ (min ≤ n ∧ n ≤ max) ∧ v = .int n := by
  rw [normalize, hm, Domain.normalize, FieldValue.int_filter_eq_some_iff]
  simp only [decide_eq_true_eq]

theorem numeral_exact :
    (∀ (n : Int64) (s : String), Dressed (Text.decimal n.toInt) s →
      (FieldValue.text s).whole? = some n) ∧
    (∀ s : String,
      (∀ n : Int64, (FieldValue.text s).whole? = some n ↔
        Text.DenotesSigned ((Text.trimChars s.toList).filter (· != ',')) n.toInt) ∧
      ((FieldValue.text s).whole? = none ↔ ¬ ∃ n : Int64,
        Text.DenotesSigned ((Text.trimChars s.toList).filter (· != ',')) n.toInt)) ∧
    (∀ (m : FieldModel) (s : String) (v : FieldValue),
      (m.domain = .nonNegative → (m.normalize (.text s) = some v ↔
        ∃ n, (FieldValue.text s).whole? = some n ∧ 0 ≤ n ∧ v = .int n)) ∧
      (∀ min max, m.domain = .bounded min max → (m.normalize (.text s) = some v ↔
        ∃ n, (FieldValue.text s).whole? = some n ∧ (min ≤ n ∧ n ≤ max) ∧ v = .int n))) := by
  refine ⟨?dressed, ?read, ?fields⟩
  case dressed =>
    intro n s h
    exact FieldValue.whole?_of_dressed h
  case read =>
    intro s
    exact ⟨fun n => FieldValue.whole?_text_eq_some_iff, FieldValue.whole?_text_eq_none_iff⟩
  case fields =>
    intro m s v
    exact ⟨normalize_nonNegative, fun min max => normalize_bounded⟩

theorem numeral_exact_least :
    (FieldValue.text " -9,223,372,036,854,775,808,").whole? = some Int64.minValue ∧
      (¬ ∃ n : Int64, Text.DenotesSigned
        ((Text.trimChars "9,223,372,036,854,775,808".toList).filter (· != ',')) n.toInt) ∧
      ∃ m : FieldModel, m.domain = .bounded 1 18 ∧
        m.normalize (.text ",+0,7") = some (.int 7) ∧ m.normalize (.text "+ 7") = none := by
  obtain ⟨hdressed, hread, hfields⟩ := numeral_exact
  have hleast : Dressed (Text.decimal Int64.minValue.toInt) " -9,223,372,036,854,775,808," :=
    ⟨[' '], "-9,223,372,036,854,775,808,".toList, [], by decide, List.forall_mem_singleton.mpr rfl,
      by decide, List.forall_mem_nil _⟩
  have hgreater := (hread "9,223,372,036,854,775,808").2.mp (by decide)
  have hm : (FieldModel.new "level" (.bounded 1 18) .free).domain = .bounded 1 18 := rfl
  have hseven := ((hfields _ ",+0,7" _).2 1 18 hm).mpr ⟨7, by decide, by decide, rfl⟩
  exact ⟨hdressed _ _ hleast, hgreater, _, hm, hseven, by decide⟩

end FieldModel

end GameTimeline
