import GameTimeline.Proofs.Field.Clock
import GameTimeline.Proofs.Field.Numeral

namespace GameTimeline

namespace Domain

def Member (d : Domain) (v : FieldValue) : Prop := d.normalize v = some v

theorem int_of_filter {v c : FieldValue} {p : Int64 → Bool}
    (h : (v.whole?.filter p).map .int = some c) : ∃ n, c = .int n ∧ p n = true := by
  obtain ⟨n, -, hn, hc⟩ := FieldValue.int_filter_eq_some_iff.mp h
  exact ⟨n, hc, hn⟩

theorem int_of_normalizeTimer {v c : FieldValue} (h : normalizeTimer v = some c) :
    ∃ n : Int64, c = .int n ∧ 0 ≤ n := by
  have number {w : FieldValue} (hw : (w.whole?.filter (0 ≤ ·)).map .int = some c) :
      ∃ n : Int64, c = .int n ∧ 0 ≤ n := by
    obtain ⟨n, hc, hn⟩ := int_of_filter hw
    exact ⟨n, hc, of_decide_eq_true hn⟩
  cases v with
  | text s =>
      rw [normalizeTimer] at h
      split at h
      · obtain ⟨n, hn, rfl⟩ := Option.map_eq_some_iff.mp h
        exact ⟨n, rfl, Clock.nonneg_of_parse? hn⟩
      · exact number h
  | flag b => exact number (w := .flag b) h
  | int n => exact number (w := .int n) h
  | unsupported s => exact number (w := .unsupported s) h

theorem text_of_normalizeLabel {values : List String} {v c : FieldValue}
    (h : normalizeLabel values v = some c) :
    ∃ t, c = .text t ∧ t ∈ values ∧ Text.trim t = t := by
  cases v with
  | text s =>
      simp only [normalizeLabel] at h
      split at h
      · rename_i hs
        cases h
        exact ⟨Text.trim s, rfl, List.contains_iff_mem.mp hs, Text.trim_trim s⟩
      · cases h
  | flag b => cases h
  | int n => cases h
  | unsupported s => cases h

theorem flag_of_normalizeFlag {v c : FieldValue} (h : normalizeFlag v = some c) :
    ∃ b, c = .flag b := by
  cases v with
  | flag b =>
      cases h
      exact ⟨b, rfl⟩
  | int n =>
      simp only [normalizeFlag] at h
      split at h
      · exact ⟨false, (Option.some.inj h).symm⟩
      · split at h
        · exact ⟨true, (Option.some.inj h).symm⟩
        · cases h
  | text s =>
      simp only [normalizeFlag] at h
      split at h
      · exact ⟨true, (Option.some.inj h).symm⟩
      · split at h
        · exact ⟨false, (Option.some.inj h).symm⟩
        · cases h
  | unsupported s => cases h

theorem text_of_normalizeText {v c : FieldValue} (h : normalizeText v = some c) :
    ∃ t, c = .text t := by
  cases v with
  | text s => exact ⟨s, (Option.some.inj h).symm⟩
  | int n => exact ⟨_, (Option.some.inj h).symm⟩
  | flag b => cases h
  | unsupported s => cases h

theorem member_of_normalize {d : Domain} {v c : FieldValue} (h : d.normalize v = some c) :
    d.Member c := by
  cases d with
  | nonNegative =>
      obtain ⟨n, rfl, hn⟩ := int_of_filter h
      simpa [Member, normalize, FieldValue.whole?] using hn
  | bounded min max =>
      obtain ⟨n, rfl, hn⟩ := int_of_filter h
      simpa [Member, normalize, FieldValue.whole?] using hn
  | labels values =>
      obtain ⟨t, rfl, ht, htrim⟩ := text_of_normalizeLabel h
      simp [Member, normalize, normalizeLabel, htrim, ht]
  | timer =>
      obtain ⟨n, rfl, hn⟩ := int_of_normalizeTimer h
      simp [Member, normalize, normalizeTimer, FieldValue.whole?, hn]
  | flag =>
      obtain ⟨b, rfl⟩ := flag_of_normalizeFlag h
      rfl
  | text =>
      obtain ⟨t, rfl⟩ := text_of_normalizeText h
      rfl

theorem exists_rank {d : Domain} (hd : d.isOrdered = true) {v : FieldValue} (h : d.Member v) :
    ∃ r, d.rank? v = some r := by
  cases d with
  | nonNegative =>
      obtain ⟨n, rfl, -⟩ := int_of_filter h
      exact ⟨n.toInt, rfl⟩
  | bounded min max =>
      obtain ⟨n, rfl, -⟩ := int_of_filter h
      exact ⟨n.toInt, rfl⟩
  | labels values =>
      obtain ⟨t, rfl, ht, -⟩ := text_of_normalizeLabel h
      have hfound : (values.findIdx? (· == t)).isSome = true := by
        simpa [List.findIdx?_isSome] using ht
      obtain ⟨i, hi⟩ := Option.isSome_iff_exists.mp hfound
      exact ⟨i, by simp only [rank?, hi, Option.map_some, Int.ofNat_eq_natCast]⟩
  | timer =>
      obtain ⟨n, rfl, -⟩ := int_of_normalizeTimer h
      exact ⟨n.toInt, rfl⟩
  | flag =>
      obtain ⟨b, rfl⟩ := flag_of_normalizeFlag h
      exact ⟨_, rfl⟩
  | text => cases hd

theorem isOrdered_of_isNumeric {d : Domain} (h : d.isNumeric = true) : d.isOrdered = true := by
  cases d <;> first | rfl | exact h

def AtMost (d : Domain) (u v : FieldValue) : Prop :=
  ∃ ru rv, d.rank? u = some ru ∧ d.rank? v = some rv ∧ ru ≤ rv

theorem atMost_refl {d : Domain} (hd : d.isOrdered = true) {v : FieldValue} (h : d.Member v) :
    d.AtMost v v := by
  obtain ⟨r, hr⟩ := exists_rank hd h
  exact ⟨r, r, hr, hr, Int.le_refl r⟩

theorem AtMost.trans {d : Domain} {u v w : FieldValue} (huv : d.AtMost u v) (hvw : d.AtMost v w) :
    d.AtMost u w := by
  obtain ⟨ru, rv, hu, hv, hle⟩ := huv
  obtain ⟨rv', rw', hv', hw, hle'⟩ := hvw
  have heq : rv = rv' := Option.some.inj (hv.symm.trans hv')
  exact ⟨ru, rw', hu, hw, Int.le_trans hle (heq ▸ hle')⟩

theorem AtMost.left {d : Domain} {u v : FieldValue} (h : d.AtMost u v) : d.AtMost u u := by
  obtain ⟨r, -, hr, -, -⟩ := h
  exact ⟨r, r, hr, hr, Int.le_refl r⟩

theorem AtMost.le {d : Domain} {u v : FieldValue} (h : d.AtMost u v) {a b : Int}
    (ha : d.rank? u = some a) (hb : d.rank? v = some b) : a ≤ b := by
  obtain ⟨ru, rv, hu, hv, hle⟩ := h
  obtain rfl := Option.some.inj (hu.symm.trans ha)
  obtain rfl := Option.some.inj (hv.symm.trans hb)
  exact hle

theorem ranks_of_pairwise {d : Domain} {l : List FieldValue} (hl : ∀ v ∈ l, d.AtMost v v)
    (h : l.Pairwise d.AtMost) :
    ∃ ranks : List Int, l.map d.rank? = ranks.map some ∧ ranks.Pairwise (· ≤ ·) := by
  induction l with
  | nil => exact ⟨[], rfl, .nil⟩
  | cons v l ih =>
      obtain ⟨hv, hrest⟩ := List.pairwise_cons.mp h
      obtain ⟨ranks, hranks, hord⟩ := ih (fun w hw => hl w (List.mem_cons_of_mem _ hw)) hrest
      obtain ⟨r, -, hr, -⟩ := hl v (List.mem_cons_self ..)
      refine ⟨r :: ranks, by rw [List.map_cons, List.map_cons, hr, hranks], ?_⟩
      refine List.pairwise_cons.mpr ⟨fun r' hr' => ?_, hord⟩
      have hin : some r' ∈ l.map d.rank? := hranks ▸ List.mem_map_of_mem hr'
      obtain ⟨w, hw, hwr⟩ := List.mem_map.mp hin
      exact (hv w hw).le hr hwr

end Domain

end GameTimeline
