import GameTimeline.Digest.Uuid

namespace GameTimeline.Run

def id (configHash inputHash : String) : String :=
  Digest.Uuid.text
    (Digest.Uuid.named Digest.Uuid.oidSpace ("gsr-run:" ++ configHash ++ ":" ++ inputHash))

end GameTimeline.Run
