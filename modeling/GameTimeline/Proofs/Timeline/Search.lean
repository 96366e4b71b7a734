import GameTimeline.Proofs.Timeline.Store
import Mathlib.Data.List.Induction

namespace GameTimeline.Timeline

variable {states : Array CorrectedState} {offers : List CorrectedState} {t : Timeline}
  {s x y : CorrectedState} {frame lo hi i j : Nat}

def Ordered (t : Timeline) : Prop := t.toList.Pairwise (·.frame < ·.frame)

theorem frame_lt_frame (h : states.toList.Pairwise (·.frame < ·.frame)) (hij : i < j)
    (hx : states[i]? = some x) (hy : states[j]? = some y) : x.frame < y.frame := by
  rw [← Array.getElem?_toList] at hx hy
  obtain ⟨hi, rfl⟩ := List.getElem?_eq_some_iff.mp hx
  obtain ⟨hj, rfl⟩ := List.getElem?_eq_some_iff.mp hy
  exact List.pairwise_iff_getElem.mp h i j hi hj hij

theorem lt_of_frame_lt (h : states.toList.Pairwise (·.frame < ·.frame))
    (hx : states[i]? = some x) (hy : states[j]? = some y) (hlt : x.frame < y.frame) : i < j := by
  rcases Nat.lt_trichotomy i j with hless | rfl | hmore
  · exact hless
  · rw [hx] at hy
    cases hy
    exact absurd hlt (Nat.lt_irrefl _)
  · exact absurd (frame_lt_frame h hmore hy hx) (Nat.lt_asymm hlt)

theorem search_eq_some_iff (h : states.toList.Pairwise (·.frame < ·.frame))
    (hhi : hi ≤ states.size) : search states frame lo hi = some s ↔
      ∃ i, lo ≤ i ∧ i < hi ∧ states[i]? = some s ∧ s.frame = frame := by
  fun_induction search states frame lo hi with
  | case1 lo hi hlt mid hnone =>
      -- the middle of a range that is not empty is in the range
      have hmid : mid < states.size := by omega
      exact absurd hmid (Nat.not_lt.mpr (Array.getElem?_eq_none_iff.mp hnone))
  | case2 lo hi hlt mid x hx hframe =>
      constructor
      · rintro ⟨⟩
        exact ⟨mid, by omega, by omega, hx, hframe⟩
      · rintro ⟨i, -, -, hs, hsame⟩
        rcases Nat.lt_trichotomy i mid with hless | rfl | hmore
        · have hbelow := frame_lt_frame h hless hs hx
          omega
        · rw [← hs, hx]
        · have habove := frame_lt_frame h hmore hx hs
          omega
  | case3 lo hi hlt mid x hx hne hbelow ih =>
      rw [ih hhi]
      constructor
      · rintro ⟨i, hlow, hrest⟩
        exact ⟨i, by omega, hrest⟩
      · rintro ⟨i, hlow, hhigh, hs, hsame⟩
        have hright : mid < i := lt_of_frame_lt h hx hs (hsame ▸ hbelow)
        exact ⟨i, hright, hhigh, hs, hsame⟩
  | case4 lo hi hlt mid x hx hne hnot ih =>
      rw [ih (by omega)]
      constructor
      · rintro ⟨i, hlow, hhigh, hrest⟩
        exact ⟨i, hlow, by omega, hrest⟩
      · rintro ⟨i, hlow, hhigh, hs, hsame⟩
        have hleft : i < mid := lt_of_frame_lt h hs hx (by omega)
        exact ⟨i, hlow, hleft, hs, hsame⟩
  | case5 lo hi hempty =>
      constructor
      · nofun
      · rintro ⟨i, hlow, hhigh, -⟩
        omega

theorem get?_eq_some_iff (h : t.Ordered) :
    t.get? frame = some s ↔ s ∈ t.toList ∧ s.frame = frame := by
  rw [get?, search_eq_some_iff h (Nat.le_refl _), toList, Array.mem_toList_iff,
    Array.mem_iff_getElem?]
  constructor
  · rintro ⟨i, -, -, hs, hsame⟩
    exact ⟨⟨i, hs⟩, hsame⟩
  · rintro ⟨⟨i, hs⟩, hsame⟩
    exact ⟨i, Nat.zero_le i, (Array.getElem?_eq_some_iff.mp hs).1, hs, hsame⟩

theorem Ordered.eq_of_frame_eq (h : t.Ordered) (hx : x ∈ t.toList) (hy : y ∈ t.toList)
    (hsame : x.frame = y.frame) : x = y := by
  have hfind {z : CorrectedState} (hz : z ∈ t.toList) : t.get? z.frame = some z :=
    (get?_eq_some_iff h).mpr ⟨hz, rfl⟩
  have hboth := (hfind hx).symm.trans (hsame ▸ hfind hy)
  exact Option.some.inj hboth

theorem get?_eq_find? (h : t.Ordered) (frame : Nat) :
    t.get? frame = t.toList.find? (·.frame = frame) := by
  have hfound {s : CorrectedState} (hs : t.toList.find? (·.frame = frame) = some s) :
      s ∈ t.toList ∧ s.frame = frame :=
    ⟨List.mem_of_find?_eq_some hs, by simpa using List.find?_some hs⟩
  refine Option.ext fun s => ?_
  rw [get?_eq_some_iff h]
  constructor
  · rintro ⟨hs, hframe⟩
    cases hfind : t.toList.find? (·.frame = frame) with
    | none =>
        have hout := List.find?_eq_none.mp hfind s hs
        exact absurd (decide_eq_true hframe) hout
    | some x =>
        obtain ⟨hx, hsame⟩ := hfound hfind
        rw [h.eq_of_frame_eq hx hs (hsame.trans hframe.symm)]
  · exact hfound

theorem advances_iff (h : t.Ordered) :
    t.advances frame = true ↔ ∀ x ∈ t.toList, x.frame < frame := by
  rw [advances, lastFrame?_eq]
  rcases List.eq_nil_or_concat t.toList with hnil | ⟨front, last, hconcat⟩
  · simp [hnil]
  · -- the last record is the one with the greatest frame
    rw [List.concat_eq_append] at hconcat
    rw [Ordered, hconcat] at h
    have hlast : ∀ x ∈ front, x.frame < last.frame := fun x hx =>
      (List.pairwise_append.mp h).2.2 x hx last (List.mem_singleton_self _)
    rw [hconcat, List.getLast?_concat, Option.map_some, decide_eq_true_eq]
    constructor
    · intro hlt x hx
      rcases List.mem_append.mp hx with hx | hx
      · exact Nat.lt_trans (hlast x hx) hlt
      · rwa [List.mem_singleton.mp hx]
    · intro hall
      exact hall last (List.mem_append_right _ (List.mem_singleton_self _))

theorem Ordered.append (h : t.Ordered) (s : CorrectedState) : (t.append s).Ordered := by
  rw [Ordered, toList_append]
  split
  · rename_i hadvances
    refine List.pairwise_append.mpr ⟨h, List.pairwise_singleton .., ?_⟩
    intro x hx y hy
    rw [List.mem_singleton.mp hy]
    exact (advances_iff h).mp hadvances x hx
  · exact h

theorem Ordered.appendAll (h : t.Ordered) (offers : List CorrectedState) :
    (t.appendAll offers).Ordered := by
  induction offers generalizing t with
  | nil => exact h
  | cons s offers ih => exact ih (h.append s)

theorem ordered_empty : empty.Ordered := .nil

theorem appendAll_concat (t : Timeline) (offers : List CorrectedState) (s : CorrectedState) :
    t.appendAll (offers ++ [s]) = (t.appendAll offers).append s := by
  rw [appendAll, List.foldl_append]
  rfl

theorem mem_append_iff : x ∈ (t.append s).toList ↔
    x ∈ t.toList ∨ x = s ∧ t.advances s.frame = true := by
  rw [toList_append]
  split
  · rename_i hadvances
    simp [hadvances]
  · rename_i hrefused
    simp [hrefused]

theorem exists_stored_of_mem (hx : x ∈ offers) :
    ∃ y ∈ (empty.appendAll offers).toList, x.frame ≤ y.frame := by
  induction offers using List.reverseRecOn with
  | nil => cases hx
  | append_singleton offers s ih =>
      rw [appendAll_concat]
      rcases List.mem_append.mp hx with hx | hx
      · obtain ⟨y, hy, hle⟩ := ih hx
        exact ⟨y, mem_append_iff.mpr (.inl hy), hle⟩
      · obtain rfl := List.mem_singleton.mp hx
        by_cases hadvances : (empty.appendAll offers).advances x.frame = true
        · exact ⟨x, mem_append_iff.mpr (.inr ⟨rfl, hadvances⟩), Nat.le_refl _⟩
        · simp only [advances_iff (ordered_empty.appendAll offers), not_forall, Nat.not_lt,
            exists_prop] at hadvances
          obtain ⟨y, hy, hle⟩ := hadvances
          exact ⟨y, mem_append_iff.mpr (.inl hy), hle⟩

theorem mem_appendAll_iff : s ∈ (empty.appendAll offers).toList ↔
    ∃ pre post, offers = pre ++ s :: post ∧ (empty.appendAll pre).advances s.frame = true := by
  induction offers using List.reverseRecOn with
  | nil => simp [appendAll, empty, toList]
  | append_singleton offers last ih =>
      rw [appendAll_concat, mem_append_iff, ih]
      constructor
      · rintro (⟨pre, post, rfl, hadvances⟩ | ⟨rfl, hadvances⟩)
        · exact ⟨pre, post ++ [last], by simp, hadvances⟩
        · exact ⟨offers, [], rfl, hadvances⟩
      · rintro ⟨pre, post, hsplit, hadvances⟩
        rcases List.eq_nil_or_concat post with rfl | ⟨front, z, rfl⟩
        · obtain ⟨rfl, hlast⟩ := List.append_inj' hsplit rfl
          cases hlast
          exact .inr ⟨rfl, hadvances⟩
        · rw [List.concat_eq_append, ← List.cons_append, ← List.append_assoc] at hsplit
          exact .inl ⟨pre, front, (List.append_inj' hsplit rfl).1, hadvances⟩

theorem advances_appendAll_iff :
    (empty.appendAll offers).advances frame = true ↔ ∀ x ∈ offers, x.frame < frame := by
  rw [advances_iff (ordered_empty.appendAll offers)]
  constructor
  · intro hstored x hx
    obtain ⟨y, hy, hle⟩ := exists_stored_of_mem hx
    exact Nat.lt_of_le_of_lt hle (hstored y hy)
  · intro hoffers x hx
    obtain ⟨pre, post, rfl, -⟩ := mem_appendAll_iff.mp hx
    exact hoffers x (List.mem_append_right _ (List.mem_cons_self ..))

theorem sorted_store (offers : List CorrectedState) :
    let t := empty.appendAll offers
    (∀ s, (t.advances s.frame = true ↔ ∀ x ∈ t.toList, x.frame < s.frame) ∧
      (t.advances s.frame = true ↔ ∀ x ∈ offers, x.frame < s.frame) ∧
      (t.append s).toList = t.toList ++ if t.advances s.frame then [s] else []) ∧
    t.toList.Pairwise (·.frame < ·.frame) ∧
    ∀ frame, t.get? frame = t.toList.find? (·.frame = frame) ∧
      ∀ s, t.get? frame = some s ↔ ∃ pre post, offers = pre ++ s :: post ∧ s.frame = frame ∧
        (∀ x ∈ pre, x.frame ≠ frame) ∧ (empty.appendAll pre).advances frame = true := by
  intro t
  have hordered : t.Ordered := ordered_empty.appendAll offers
  refine ⟨fun s => ⟨advances_iff hordered, advances_appendAll_iff, ?_⟩, hordered, fun frame =>
    ⟨get?_eq_find? hordered frame, fun s => ?_⟩⟩
  · rw [toList_append]
    split <;> simp
  · rw [get?_eq_some_iff hordered, mem_appendAll_iff]
    constructor
    · rintro ⟨⟨pre, post, hsplit, hadvances⟩, rfl⟩
      have hfirst : ∀ x ∈ pre, x.frame ≠ s.frame := fun x hx =>
        Nat.ne_of_lt (advances_appendAll_iff.mp hadvances x hx)
      exact ⟨pre, post, hsplit, rfl, hfirst, hadvances⟩
    · rintro ⟨pre, post, hsplit, rfl, -, hadvances⟩
      exact ⟨⟨pre, post, hsplit, hadvances⟩, rfl⟩

end GameTimeline.Timeline
