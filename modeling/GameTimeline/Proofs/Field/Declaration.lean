import GameTimeline.Field.Model
import GameTimeline.Proofs.Field.Member

namespace GameTimeline

namespace Domain

variable {d : Domain} {v : FieldValue}

def Declares : Domain → FieldValue → Prop
  | .nonNegative, .int n => 0 ≤ n
  | .bounded min max, .int n => min ≤ n ∧ n ≤ max
  | .labels values, .text l => l ∈ values
  | .timer, .int n => 0 ≤ n
  | .flag, .flag _ => True
  | .text, .text _ => True
  | _, _ => False

def Hidden : Domain → FieldValue → Prop
  | .labels _, .text l => Text.trim l ≠ l
  | _, _ => False

theorem Member.declares (h : d.Member v) : d.Declares v ∧ ¬ d.Hidden v := by
  cases d with
  | nonNegative =>
      obtain ⟨n, rfl, hn⟩ := int_of_filter h
      have hin : 0 ≤ n := of_decide_eq_true hn
      exact ⟨hin, id⟩
  | bounded min max =>
      obtain ⟨n, rfl, hn⟩ := int_of_filter h
      have hin : min ≤ n ∧ n ≤ max := of_decide_eq_true hn
      exact ⟨hin, id⟩
  | labels values =>
      obtain ⟨l, rfl, hl, htrim⟩ := text_of_normalizeLabel h
      exact ⟨hl, fun hhidden => hhidden htrim⟩
  | timer =>
      obtain ⟨n, rfl, hn⟩ := int_of_normalizeTimer h
      exact ⟨hn, id⟩
  | flag =>
      obtain ⟨b, rfl⟩ := flag_of_normalizeFlag h
      exact ⟨trivial, id⟩
  | text =>
      obtain ⟨t, rfl⟩ := text_of_normalizeText h
      exact ⟨trivial, id⟩

theorem Declares.member (h : d.Declares v) (hv : ¬ d.Hidden v) : d.Member v := by
  cases d with
  | nonNegative =>
      cases v with
      | int n =>
          have hin : 0 ≤ n := h
          simp [Member, normalize, FieldValue.whole?, hin]
      | _ => cases h
  | bounded min max =>
      cases v with
      | int n =>
          have hin : min ≤ n ∧ n ≤ max := h
          simp [Member, normalize, FieldValue.whole?, hin]
      | _ => cases h
  | labels values =>
      cases v with
      | text l =>
          have htrim : Text.trim l = l := not_not.mp hv
          have hl : l ∈ values := h
          simp [Member, normalize, normalizeLabel, htrim, hl]
      | _ => cases h
  | timer =>
      cases v with
      | int n =>
          have hin : 0 ≤ n := h
          simp [Member, normalize, normalizeTimer, FieldValue.whole?, hin]
      | _ => cases h
  | flag =>
      cases v with
      | flag b => rfl
      | _ => cases h
  | text =>
      cases v with
      | text s => rfl
      | _ => cases h

theorem member_iff : d.Member v ↔ d.Declares v ∧ ¬ d.Hidden v :=
  ⟨Member.declares, fun h => h.1.member h.2⟩

end Domain

namespace FieldModel

theorem normalize_declared (m : FieldModel) (v : FieldValue) :
    ((∃ raw, m.normalize raw = some v) ↔ m.domain.Declares v ∧ ¬ m.domain.Hidden v) ∧
    (m.normalize v = some v ↔ m.domain.Declares v ∧ ¬ m.domain.Hidden v) := by
  refine ⟨?shown, Domain.member_iff⟩
  case shown =>
    rw [← Domain.member_iff]
    constructor
    · rintro ⟨raw, hraw⟩
      exact Domain.member_of_normalize hraw
    · intro hmember
      exact ⟨v, hmember⟩

theorem declared_label_unread :
    ∃ m : FieldModel, m.validate = .ok () ∧ m.domain.Declares (.text " mid ") ∧
      ∀ raw, m.normalize raw ≠ some (.text " mid ") := by
  have hdeclared : (Domain.labels ["early", " mid "]).Declares (.text " mid ") :=
    List.mem_cons_of_mem _ (List.mem_singleton_self _)
  have hhidden : Text.trim " mid " ≠ " mid " := by decide
  refine ⟨.new "phase" (.labels ["early", " mid "]) .free, rfl, hdeclared, ?_⟩
  intro raw hraw
  exact (Domain.member_of_normalize hraw).declares.2 hhidden

end FieldModel

end GameTimeline
