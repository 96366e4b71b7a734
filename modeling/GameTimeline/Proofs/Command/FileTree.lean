import GameTimeline.Command.FileTree
import Mathlib.Data.List.Infix

namespace GameTimeline.Command

open FileTree (parts)

inductive Action.Spares (name : String) : Action → Prop
  | print (text : String) : Spares name (.print text)
  | write {path other : String} (bytes : List UInt8) (h : (parts path).getLast? = some other)
      (hn : ¬ other.toList <:+ name.toList) (hn' : ¬ name.toList <:+ other.toList) :
      Spares name (.write path bytes)

namespace FileTree

variable {t t' u : FileTree} {path other name last : String} {names others : List String}
  {bytes : List UInt8} {as bs : List Action}

end FileTree

end GameTimeline.Command
