import GameTimeline.Capture.Stream

namespace GameTimeline

structure Task where
  field : String
  crop : Image
  answer : Option Recognition

structure TaskGroup where
  waiting : List (String × Image)
  tasks : List Task
  joined : List (String × Recognition)

namespace TaskGroup

inductive Move where
  | spawn
  | finish (place : Nat)
  | join
  deriving DecidableEq, Repr

def start (crops : List (String × Image)) : TaskGroup := ⟨crops, [], []⟩

def spawn? (g : TaskGroup) : Option TaskGroup :=
  match g.waiting with
  | [] => none
  | c :: rest => some { g with waiting := rest, tasks := g.tasks ++ [⟨c.1, c.2, none⟩] }

def finish? (r : Recognizer) (g : TaskGroup) (place : Nat) : Option TaskGroup :=
  match g.tasks[place]? with
  | some ⟨field, crop, none⟩ =>
      some { g with tasks := g.tasks.set place ⟨field, crop, some (r.recognize field crop)⟩ }
  | _ => none

def join? (g : TaskGroup) : Option TaskGroup :=
  match g.waiting, g.tasks with
  | [], ⟨field, _, some answer⟩ :: rest =>
      some { g with tasks := rest, joined := g.joined ++ [(field, answer)] }
  | _, _ => none

def move? (r : Recognizer) (g : TaskGroup) : Move → Option TaskGroup
  | .spawn => g.spawn?
  | .finish place => g.finish? r place
  | .join => g.join?

def play? (r : Recognizer) (g : TaskGroup) : List Move → Option TaskGroup
  | [] => some g
  | m :: moves => (g.move? r m).bind fun g' => g'.play? r moves

def answers? (g : TaskGroup) : Option (List (String × Recognition)) :=
  match g.waiting, g.tasks with
  | [], [] => some g.joined
  | _, _ => none

end TaskGroup

namespace SampledStream

def crops (l : Layout) (image : Image) : Except CaptureError (List (String × Image)) :=
  l.entries.mapM fun e => (image.crop e.2).map fun c => (e.1, c)

/-- Recognition by one task for each region, in the course that the moves give to it. There are no
answers where the moves are no course of the tasks up to their end. -/
def recognizeByTasks (moves : List TaskGroup.Move) (l : Layout) (r : Recognizer) (image : Image) :
    Except CaptureError (Option (List (String × Recognition))) := do
  let crops ← crops l image
  pure (((TaskGroup.start crops).play? r moves).bind TaskGroup.answers?)

end SampledStream

end GameTimeline
