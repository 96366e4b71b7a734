import GameTimeline.Proofs.Traversal
import GameTimeline.Reconcile.Belief

namespace GameTimeline

namespace Belief

theorem isStale_iff {window seq : Nat} {p : Pending} :
    isStale window seq p = true ↔ window ≤ seq - p.seq := by
  simp [isStale]

theorem expire_pending {b : Belief} (h : b.pending.Pairwise (·.seq < ·.seq)) (window seq : Nat) :
    (b.expire window seq).pending = b.pending.filter (!isStale window seq ·) := by
  refine dropWhile_eq_filter (h.imp ?_)
  intro p q hpq hq
  rw [isStale_iff] at hq ⊢
  omega

@[simp] theorem expire_accepted (b : Belief) (window seq : Nat) :
    (b.expire window seq).accepted = b.accepted := rfl

@[simp] theorem expire_value (b : Belief) (window seq : Nat) :
    (b.expire window seq).value = b.value := rfl

@[simp] theorem push_accepted (b : Belief) (window : Nat) (p : Pending) :
    (b.push window p).accepted = b.accepted := rfl

@[simp] theorem push_value (b : Belief) (window : Nat) (p : Pending) :
    (b.push window p).value = b.value := rfl

theorem acceptedFrame_of_accepted {b : Belief} {v : FieldValue} {a : Nat}
    (h : b.accepted = some (v, a)) : b.acceptedFrame = some a := by
  rw [acceptedFrame, h]
  rfl

theorem expire_subset (b : Belief) (window seq : Nat) :
    (b.expire window seq).pending ⊆ b.pending :=
  (List.dropWhile_sublist _).subset

theorem evicted_eq_nil {b : Belief} {window : Nat} (h : b.pending.length < window) :
    b.evicted window = [] := by
  rw [evicted, if_neg (Nat.not_le.mpr h)]

theorem push_pending {b : Belief} {window : Nat} (h : b.pending.length < window) (p : Pending) :
    (b.push window p).pending = b.pending ++ [p] := by
  simp [push, evicted_eq_nil h]

theorem mem_push {b : Belief} {window : Nat} {p q : Pending}
    (h : q ∈ (b.push window p).pending) : q ∈ b.pending ∨ q = p := by
  rcases List.mem_append.mp h with hq | hq
  · exact .inl (List.mem_of_mem_drop hq)
  · exact .inr (List.mem_singleton.mp hq)

theorem votes_append (ps qs : List Pending) (v : FieldValue) :
    votes (ps ++ qs) v = votes ps v + votes qs v :=
  List.countP_append

theorem votes_le_of_sublist {ps qs : List Pending} (h : ps.Sublist qs) (v : FieldValue) :
    votes ps v ≤ votes qs v :=
  h.countP_le

theorem votes_pos_iff {ps : List Pending} {v : FieldValue} :
    0 < votes ps v ↔ ∃ p ∈ ps, p.value = v := by
  simp [votes, List.countP_pos_iff]

theorem votes_singleton_of_ne {p : Pending} {v : FieldValue} (h : p.value ≠ v) :
    votes [p] v = 0 := by
  simp [votes, h]

theorem votes_singleton_self (p : Pending) : votes [p] p.value = 1 := by
  simp [votes]

end Belief

end GameTimeline
