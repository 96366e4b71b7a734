import GameTimeline.Command.Basic
import GameTimeline.Proofs.Command.FileTree
import GameTimeline.Proofs.Command.Selection
import GameTimeline.Proofs.Timeline.Report

namespace GameTimeline.Command

variable {s : Selection} {t : FileTree} {mode : Config.Mode} {stage : Stage} {e : Failure}
  {stamp later root : String} {out : Outputs} {r : Reconciled} {json : Bool}

namespace Reconciled

end Reconciled

end GameTimeline.Command
