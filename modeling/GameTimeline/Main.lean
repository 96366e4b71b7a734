import GameTimeline.Command.Verb
import GameTimeline.Run.Stamp
import Std.Time.DateTime.Timestamp

namespace GameTimeline.Command

def readFile (path : String) : IO (Option (List UInt8)) := do
  try
    let bytes ← IO.FS.readBinFile path
    return some bytes.toList
  catch _ => return none

def readFiles (paths : List String) : IO Files := do
  let contents ← paths.mapM fun p => do return (p, ← readFile p)
  return fun p => (contents.lookup p).join

def act (a : Action) : IO Bool := do
  try
    match a with
    | .print text => (← IO.getStdout).putStr text
    | .write p bytes => IO.FS.writeBinFile p ⟨bytes.toArray⟩
    | .writeTable p bytes => IO.FS.writeBinFile p ⟨bytes.toArray⟩
    | .makeDirectories p => IO.FS.createDirAll p
    return true
  catch _ => return false

def stop (e : Failure) : IO UInt32 := do
  (← IO.getStderr).putStr e.report
  return 1

def actAll : List Action → IO UInt32
  | [] => return 0
  | a :: r => do
      if ← act a then actAll r
      else match a.failure? with
        | some e => stop e
        | none => return 1

def now : IO String := do
  let t ← Std.Time.Timestamp.now
  return Run.stamp t.toNanosecondsSinceUnixEpoch.val

def execute (c : Command) : IO UInt32 := do
  let files ← readFiles c.reads
  match c.actions files (← now) with
  | .error e => stop e
  | .ok as => actAll as

end GameTimeline.Command

def main (args : List String) : IO UInt32 := do
  match GameTimeline.Command.Invocation.ofArguments args with
  | .run c => c.execute
  | .help text =>
      (← IO.getStdout).putStr text
      return 0
  | .misuse =>
      (← IO.getStderr).putStr GameTimeline.Command.helpText
      return 2
