import GameTimeline.Proofs.Timeline.Complete

namespace GameTimeline

namespace Reconciler

variable {s : ModelSet} {r : Reconciler} {f : RawFrame} {before : List RawFrame} {e : InputError}
  {n : String}

end Reconciler

namespace TimelineBuilder

variable {s : ModelSet} {b b' : TimelineBuilder} {f : RawFrame} {before frames : List RawFrame}
  {e : InputError}

end TimelineBuilder

structure TakenIn (s : ModelSet) (frames : List RawFrame) (t : Timeline)
    (quality : QualityReport) : Prop where
  stamps : t.toList.map (·.stamp) = frames.map fun f => (f.frame, f.timestamp)
  full : ∀ x ∈ t.toList, x.Full s
  framesIn : quality.framesIn = frames.length
  framesOut : quality.framesOut = frames.length

theorem assemble_takes_in {s : ModelSet} {frames : List RawFrame} {t : Timeline}
    {quality : QualityReport} (h : assemble s frames = .ok (t, quality)) :
    TakenIn s frames t quality := by
  obtain ⟨past, r, rest, hall⟩ := TimelineBuilder.assembled h
  exact ⟨hall.stamps, hall.full, hall.framesIn, hall.framesOut⟩

end GameTimeline
