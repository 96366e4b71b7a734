import GameTimeline.Command.Action

namespace GameTimeline.Command

/-- Files by the names on the way to them from the root, with slashes between, and the directories
that hold them. The working directory and those around it are always there; nothing is a link, and
whatever is there may be read and written. -/
structure FileTree where
  home : List String
  files : Table (List UInt8)
  directories : Table Unit

namespace FileTree

def key (names : List String) : String := "/".intercalate names

def empty (home : List String) : FileTree := ⟨home, .empty, .empty⟩

def isDirectory (t : FileTree) (names : List String) : Bool :=
  names.isPrefixOf t.home || t.directories.contains (key names)

def isFile (t : FileTree) (names : List String) : Bool := t.files.contains (key names)

def addDirectory (t : FileTree) (names : List String) : FileTree :=
  { t with directories := t.directories.insert (key names) () }

def pathLimit : Nat := 4095

def nameLimit : Nat := 255

def parts (path : String) : List String := (path.toList.splitOn '/').map String.ofList

def steps? (path : String) : Option (List String) :=
  if path.isEmpty ∨ pathLimit < path.utf8ByteSize then none else some (parts path)

def start (t : FileTree) (path : String) : List String := if path.startsWith "/" then [] else t.home

def isHere (step : String) : Bool := step.isEmpty || step = "."

def isName (step : String) : Bool := decide (step.utf8ByteSize ≤ nameLimit)

def walk? (t : FileTree) : List String → List String → Option (List String)
  | at', [] => some at'
  | at', step :: rest =>
      if ¬ t.isDirectory at' then none
      else if isHere step then walk? t at' rest
      else if step = ".." then walk? t at'.dropLast rest
      else if isName step then walk? t (at' ++ [step]) rest
      else none

def place? (t : FileTree) (path : String) : Option (List String) := do
  let steps ← steps? path
  if steps.getLast?.any (fun s => isHere s || s = "..") then none
  else t.walk? (t.start path) steps

def read? (t : FileTree) (path : String) : Option (List UInt8) := do
  let names ← t.place? path
  t.files.get? (key names)

def write? (t : FileTree) (path : String) (bytes : List UInt8) : Option FileTree := do
  let names ← t.place? path
  if t.isDirectory names then none else some { t with files := t.files.insert (key names) bytes }

def makeFrom? : FileTree → List String → List String → Option FileTree
  | t, at', [] => if t.isDirectory at' then some t else none
  | t, at', step :: rest =>
      if isHere step then makeFrom? t at' rest
      else if step = ".." then makeFrom? t at'.dropLast rest
      else
        let names := at' ++ [step]
        if t.isFile names ∨ ¬ isName step then none
        else makeFrom? (if t.isDirectory names then t else t.addDirectory names) names rest

def makeDirectories? (t : FileTree) (path : String) : Option FileTree := do
  let steps ← steps? path
  t.makeFrom? (t.start path) steps

def addFile (t : FileTree) (path : String) (bytes : List UInt8) : FileTree :=
  let t := (t.makeDirectories? (key (parts path).dropLast)).getD t
  (t.write? path bytes).getD t

def ofList (files : List (String × List UInt8)) : FileTree :=
  files.foldl (fun t f => t.addFile f.1 f.2) (empty ["work", "place"])

def below? (t : FileTree) (name : String) : Option String :=
  let before := t.home.flatMap fun n => n.toList ++ ['/']
  if before.isPrefixOf name.toList then some (String.ofList (name.toList.drop before.length))
  else none

def changedSince (t before : FileTree) : List (String × List UInt8) :=
  (t.files.entries.filter fun f => before.files.get? f.1 != some f.2).filterMap fun f =>
    (t.below? f.1).map fun path => (path, f.2)

def act? (t : FileTree) : Action → Option FileTree
  | .print _ => some t
  | .write p bytes => t.write? p bytes
  | .writeTable p bytes => t.write? p bytes
  | .makeDirectories p => t.makeDirectories? p

end FileTree

structure Performed where
  tree : FileTree
  printed : String
  failure : Option Failure

namespace FileTree

def perform (t : FileTree) : List Action → Performed
  | [] => ⟨t, "", none⟩
  | .print text :: r =>
      let p := t.perform r
      { p with printed := text ++ p.printed }
  | a :: r =>
      match t.act? a with
      | some t => t.perform r
      | none => ⟨t, "", a.failure?⟩

end FileTree

end GameTimeline.Command
