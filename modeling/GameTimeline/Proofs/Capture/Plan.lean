import GameTimeline.Capture.Plan
import Mathlib.Data.List.Range

namespace GameTimeline

namespace FrameIndices

variable {i : FrameIndices} {n k : Nat}

theorem lt_count_iff (hstride : 0 < i.stride) : k < i.count ↔ i.get k < i.last := by
  have hcount : k + 1 ≤ i.count ↔ (k + 1) * i.stride ≤ i.last - i.first + i.stride - 1 :=
    Nat.le_div_iff_mul_le hstride
  rw [Nat.add_one_mul] at hcount
  rw [get]
  omega

theorem toList_eq_range' (i : FrameIndices) : i.toList = List.range' i.first i.count i.stride := by
  rw [toList, take, Nat.min_self]
  apply List.ext_getElem
  · simp
  · intro k _ _
    simp [get, Nat.mul_comm]

theorem mem_toList_iff (hstride : 0 < i.stride) :
    n ∈ i.toList ↔ i.first ≤ n ∧ n < i.last ∧ i.stride ∣ n - i.first := by
  have hmem : n ∈ i.toList ↔ ∃ k, k < i.count ∧ n = i.get k := by
    simp [toList, take, eq_comm]
  rw [hmem]
  constructor
  · rintro ⟨k, hk, rfl⟩
    refine ⟨Nat.le_add_right _ _, (lt_count_iff hstride).mp hk, ?_⟩
    rw [get, Nat.add_sub_cancel_left]
    exact Nat.dvd_mul_left _ _
  · rintro ⟨hfirst, hlast, k, hk⟩
    have hget : n = i.get k := by
      rw [get, Nat.mul_comm]
      omega
    exact ⟨k, (lt_count_iff hstride).mpr (hget ▸ hlast), hget⟩

theorem toList_ordered (hstride : 0 < i.stride) : i.toList.Pairwise (· < ·) := by
  rw [toList_eq_range']
  exact List.pairwise_lt_range' i.stride hstride

theorem toList_ne_nil (hstride : 0 < i.stride) (hlast : i.first < i.last) : i.toList ≠ [] := by
  have hfirst : i.first ∈ i.toList := (mem_toList_iff hstride).mpr ⟨Nat.le_refl _, hlast, by simp⟩
  exact List.ne_nil_of_mem hfirst

end FrameIndices

namespace SamplingPlan

variable {p : SamplingPlan} {v : VideoProps} {fps : Float} {stride : Nat} {i : FrameIndices}

theorem stride_pos (h : p.stride fps = .ok stride) : 0 < stride := by
  simp only [SamplingPlan.stride, bind, Except.bind] at h
  split at h
  · cases h
  · split at h
    · cases h
    · cases h
      exact Nat.lt_of_lt_of_le Nat.zero_lt_one (Nat.le_max_right _ _)

theorem frameIndices_eq_ok (h : p.frameIndices v = .ok i) :
    p.stride v.fps = .ok i.stride ∧ i.first = p.firstFrame ∧
      i.last = min (p.lastFrame.getD v.frameCount) v.frameCount ∧ i.first < i.last := by
  simp only [frameIndices, bind, Except.bind] at h
  cases hstride : p.stride v.fps with
  | error e =>
      rw [hstride] at h
      cases h
  | ok stride =>
      simp only [hstride] at h
      split at h
      · cases h
      · rename_i hlast
        cases h
        exact ⟨rfl, rfl, rfl, Nat.not_le.mp hlast⟩

end SamplingPlan

end GameTimeline
