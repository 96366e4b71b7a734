import GameTimeline.Timeline.Store

namespace GameTimeline.Timeline

variable {t : Timeline} {s : CorrectedState} {ss : List CorrectedState}

theorem lastFrame?_eq (t : Timeline) : t.lastFrame? = t.toList.getLast?.map (·.frame) := by
  rw [lastFrame?, toList, Array.getLast?_toList]

theorem advances_of_after (h : ∀ x ∈ t.toList, x.frame < s.frame) : t.advances s.frame = true := by
  rw [advances, lastFrame?_eq]
  cases hlast : t.toList.getLast? with
  | none => rfl
  | some x => exact decide_eq_true (h x (List.mem_of_getLast? hlast))

theorem toList_append_of_after (h : ∀ x ∈ t.toList, x.frame < s.frame) :
    (t.append s).toList = t.toList ++ [s] := by
  rw [toList_append, if_pos (advances_of_after h)]

theorem toList_appendAll (h : (t.toList ++ ss).Pairwise (·.frame < ·.frame)) :
    (t.appendAll ss).toList = t.toList ++ ss := by
  induction ss generalizing t with
  | nil => rw [appendAll, List.foldl_nil, List.append_nil]
  | cons s ss ih =>
      have hafter : ∀ x ∈ t.toList, x.frame < s.frame := fun x hx =>
        (List.pairwise_append.mp h).2.2 x hx s (List.mem_cons_self ..)
      have hone := toList_append_of_after hafter
      have hrest : ((t.append s).toList ++ ss).Pairwise (·.frame < ·.frame) := by
        rw [hone, List.append_assoc]
        exact h
      have hall := ih hrest
      rw [hone, List.append_assoc] at hall
      exact hall

end GameTimeline.Timeline
