import GameTimeline.Table
import GameTimeline.Yaml.Node.Basic

namespace GameTimeline.Yaml

def Properties.number (p : Properties String) (names : Table Nat) : Properties Nat × Table Nat :=
  match p.anchor with
  | none => (⟨none, p.tag⟩, names)
  | some a => (⟨some names.size, p.tag⟩, names.insert a names.size)

namespace Node

mutual

def number? : Node String → Table Nat → Option (Node Nat × Table Nat)
  | .scalar p plain text, names =>
      let (p, names) := p.number names
      some (.scalar p plain text, names)
  | .alias a, names => (names.get? a).map fun n => (.alias n, names)
  | .sequence p items, names => do
      let (p, names) := p.number names
      let (items, names) ← numberItems? items names
      some (.sequence p items, names)
  | .mapping p entries, names => do
      let (p, names) := p.number names
      let (entries, names) ← numberEntries? entries names
      some (.mapping p entries, names)

def numberItems? : List (Node String) → Table Nat → Option (List (Node Nat) × Table Nat)
  | [], names => some ([], names)
  | n :: r, names => do
      let (n, names) ← n.number? names
      let (r, names) ← numberItems? r names
      some (n :: r, names)

def numberEntries? :
    List (Node String × Node String) → Table Nat → Option (List (Node Nat × Node Nat) × Table Nat)
  | [], names => some ([], names)
  | (k, n) :: r, names => do
      let (k, names) ← k.number? names
      let (n, names) ← n.number? names
      let (r, names) ← numberEntries? r names
      some ((k, n) :: r, names)

end

def withAnchor (p : Properties Nat) (n : Node Nat) : List (Nat × Node Nat) :=
  match p.anchor with
  | none => []
  | some a => [(a, n)]

mutual

def anchored : Node Nat → List (Nat × Node Nat)
  | .scalar p plain text => withAnchor p (.scalar p plain text)
  | .alias _ => []
  | .sequence p items => withAnchor p (.sequence p items) ++ anchoredItems items
  | .mapping p entries => withAnchor p (.mapping p entries) ++ anchoredEntries entries

def anchoredItems : List (Node Nat) → List (Nat × Node Nat)
  | [] => []
  | n :: r => n.anchored ++ anchoredItems r

def anchoredEntries : List (Node Nat × Node Nat) → List (Nat × Node Nat)
  | [] => []
  | (k, n) :: r => k.anchored ++ n.anchored ++ anchoredEntries r

end

end Node

structure Linked where
  root : Node Nat
  targets : List (Nat × Node Nat)

namespace Linked

def ofNode? (n : Node String) : Option Linked :=
  (n.number? .empty).map fun (root, _) => ⟨root, root.anchored.reverse⟩

def target? (d : Linked) (a : Nat) : Option (Node Nat) := d.targets.lookup a

def jumpLimit (d : Linked) : Nat := 100 * d.root.events

end Linked

end GameTimeline.Yaml
