import GameTimeline.Command.Failure
import GameTimeline.Text.Bytes

namespace GameTimeline.Command

inductive Action where
  | print (text : String)
  | write (path : String) (bytes : List UInt8)
  | writeTable (path : String) (bytes : List UInt8)
  | makeDirectories (path : String)

namespace Action

def failure? : Action → Option Failure
  | .print _ => none
  | .write p _ => some (.write p)
  | .writeTable p _ => some (.writeTable p)
  | .makeDirectories p => some (.makeDirectories p)

def writeText (path text : String) : Action := .write path (Text.utf8 (text ++ "\n"))

end Action

def inDirectory (directory name : String) : String :=
  if directory.isEmpty ∨ directory.endsWith "/" then directory ++ name
  else directory ++ "/" ++ name

end GameTimeline.Command
