import GameTimeline.Capture.Error
import GameTimeline.Json.Pointer
import GameTimeline.Text.Blank

namespace GameTimeline

structure Session where
  gameVersion : String
  participant : Option Nat
  deriving DecidableEq, Repr, Inhabited

namespace Session

def standard : Session := ⟨"6.10", none⟩

def readVersion : Json → Except CaptureError String
  | .str s =>
      if (Text.trim s).isEmpty then .error (.invalidSession (.gameVersion (.str s)))
      else .ok (Text.trim s)
  | .num n => .ok (Json.num n).compact
  | j => .error (.invalidSession (.gameVersion j))

def readParticipant : Json → Except CaptureError (Option Nat)
  | .null => .ok none
  | j => j.nat32?.elim (.error (.invalidSession (.participant j))) (.ok ∘ some)

def ofSection (j : Json) : Except CaptureError Session := do
  let version ← (j.member? "game_version").elim (.ok standard.gameVersion) readVersion
  let participant ← (j.member? "participant").elim (.ok none) readParticipant
  pure ⟨version, participant⟩

def ofJson (config : Json) : Except CaptureError Session :=
  match (config.child? "session").filter fun j => !j.isNull with
  | none => .ok standard
  | some j => ofSection j

end Session

end GameTimeline
