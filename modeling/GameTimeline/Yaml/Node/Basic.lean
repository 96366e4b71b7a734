import GameTimeline.Yaml.Token.Basic

namespace GameTimeline.Yaml

structure Properties (ν : Type) where
  anchor : Option ν
  tag : Option Tag
  deriving Repr

namespace Properties

variable {ν : Type}

def empty : Properties ν := ⟨none, none⟩

def isEmpty (p : Properties ν) : Bool := p.anchor.isNone && p.tag.isNone

end Properties

inductive Node (ν : Type) where
  | scalar (props : Properties ν) (plain : Bool) (text : String)
  | sequence (props : Properties ν) (items : List (Node ν))
  | mapping (props : Properties ν) (entries : List (Node ν × Node ν))
  | alias (name : ν)
  deriving Repr

namespace Node

variable {ν : Type}

def empty (props : Properties ν) : Node ν := .scalar props true ""

def absent : Node ν := empty .empty

instance : Inhabited (Node ν) := ⟨absent⟩

mutual

def events : Node ν → Nat
  | .scalar _ _ _ => 1
  | .alias _ => 1
  | .sequence _ items => itemEvents items + 2
  | .mapping _ entries => entryEvents entries + 2

def itemEvents : List (Node ν) → Nat
  | [] => 0
  | n :: r => n.events + itemEvents r

def entryEvents : List (Node ν × Node ν) → Nat
  | [] => 0
  | (k, n) :: r => k.events + n.events + entryEvents r

end

end Node

end GameTimeline.Yaml
