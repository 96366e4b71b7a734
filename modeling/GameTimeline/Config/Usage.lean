import GameTimeline.Json.Pointer
import GameTimeline.Text.Blank
import GameTimeline.Text.Bytes
import GameTimeline.Text.Quoted

namespace GameTimeline.Config

inductive Mode where
  | correct
  | quality
  deriving DecidableEq, Repr, Inhabited

def Mode.label : Mode → String
  | .correct => "CORRECT"
  | .quality => "QUALITY"

inductive UnusedPolicy where
  | warn
  | fail
  deriving DecidableEq, Repr, Inhabited

def registered : Mode → List String
  | .correct | .quality =>
      ["/fields", "/reconcile", "/session/game_version", "/session/participant",
       "/sampling/first_frame", "/sampling/last_frame", "/sampling/frames_per_sec"]

def dropSlashes (s : List Char) : List Char := (s.reverse.dropWhile (· = '/')).reverse

def normalize (pointer : String) : List Char :=
  match Text.trimChars pointer.toList with
  | '/' :: s => '/' :: dropSlashes s
  | s => '/' :: dropSlashes s

def sortPointers (pointers : List (List Char)) : List String :=
  (Table.const (pointers.map String.ofList) ()).keys

def consumed (mode : Mode) : List String := sortPointers ((registered mode).map normalize)

def childPointer (parent : List Char) (token : String) : List Char :=
  parent ++ '/' :: Json.Pointer.escape token.toList

mutual

def leaves (parent : List Char) : Json → List (List Char)
  | .obj ms => memberLeaves parent ms
  | .arr xs => itemLeaves parent 0 xs
  | .null => [if parent.isEmpty then ['/'] else parent]
  | .bool _ => [if parent.isEmpty then ['/'] else parent]
  | .num _ => [if parent.isEmpty then ['/'] else parent]
  | .str _ => [if parent.isEmpty then ['/'] else parent]

def itemLeaves (parent : List Char) (i : Nat) : List Json → List (List Char)
  | [] => []
  | x :: r => leaves (childPointer parent (Text.showNat i)) x ++ itemLeaves parent (i + 1) r

def memberLeaves (parent : List Char) : List (String × Json) → List (List Char)
  | [] => []
  | (k, x) :: r => leaves (childPointer parent k) x ++ memberLeaves parent r

end

def leadsTo (pointer leaf : List Char) : Bool :=
  pointer = ['/'] || leaf = pointer ||
    pointer.isPrefixOf leaf &&
      let start := (Text.encode pointer).length
      Text.slice? (Text.encode leaf) start (start + 1) = some (Text.encode ['/'])

def isConsumed (mode : Mode) (leaf : List Char) : Bool :=
  (consumed mode).any fun p => leadsTo p.toList leaf

def unused (mode : Mode) (config : Json) : List String :=
  sortPointers ((leaves [] config).filter fun l => !isConsumed mode l)

structure UsageReport where
  mode : Mode
  unused : List String
  deriving DecidableEq, Repr, Inhabited

def UsageReport.isClean (r : UsageReport) : Bool := r.unused.isEmpty

structure UnusedKeys where
  report : UsageReport

def UnusedKeys.message (e : UnusedKeys) : String :=
  "CONFIG_UNUSED_KEYS (mode=" ++ e.report.mode.label ++ "): " ++
    Text.showNat e.report.unused.length ++
    " unused config leaf key(s) detected. Remove them or update the consumed registry. First few: " ++
    Text.quotedList (e.report.unused.take 12)

def reportUnused (mode : Mode) (policy : UnusedPolicy) (config : Json) :
    Except UnusedKeys UsageReport :=
  let r : UsageReport := ⟨mode, unused mode config⟩
  if policy = .fail ∧ ¬ r.isClean then .error ⟨r⟩ else .ok r

end GameTimeline.Config
