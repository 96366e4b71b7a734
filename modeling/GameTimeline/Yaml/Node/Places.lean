import GameTimeline.Table
import GameTimeline.Yaml.Node.Basic

namespace GameTimeline.Yaml

inductive EntrySpot where
  | entry
  | key
  | afterKey (k : Node String)
  | value (k : Node String)

inductive ItemSpot where
  | item
  | afterItem

inductive FlowEntrySpot where
  | entry
  | key
  | afterKey (k : Node String)
  | value (k : Node String)
  | afterEntry

inductive PairSpot where
  | key
  | afterKey (k : Node String)
  | value (k : Node String)

inductive Place where
  | root (node : Option (Node String))
  | properties (block dashes : Bool) (p : Properties String)
  | blockItems (p : Properties String) (done : List (Node String)) (spot : ItemSpot)
  | dashItems (p : Properties String) (done : List (Node String)) (spot : ItemSpot)
  | blockEntries (p : Properties String) (done : List (Node String × Node String))
      (spot : EntrySpot)
  | flowItems (p : Properties String) (done : List (Node String)) (spot : ItemSpot)
  | flowPair (spot : PairSpot)
  | flowEntries (p : Properties String) (done : List (Node String × Node String))
      (spot : FlowEntrySpot)

namespace Place

def deliver (n : Node String) : List Place → List Place
  | [] => []
  | .root _ :: ps => .root (some n) :: ps
  | .properties block dashes p :: ps => .properties block dashes p :: ps
  | .blockItems p done _ :: ps => .blockItems p (n :: done) .afterItem :: ps
  | .dashItems p done _ :: ps => .dashItems p (n :: done) .afterItem :: ps
  | .blockEntries p done (.value k) :: ps => .blockEntries p ((k, n) :: done) .entry :: ps
  | .blockEntries p done _ :: ps => .blockEntries p done (.afterKey n) :: ps
  | .flowItems p done _ :: ps => .flowItems p (n :: done) .afterItem :: ps
  | .flowPair (.value k) :: ps => deliver (.mapping .empty [(k, n)]) ps
  | .flowPair _ :: ps => .flowPair (.afterKey n) :: ps
  | .flowEntries p done (.value k) :: ps => .flowEntries p ((k, n) :: done) .afterEntry :: ps
  | .flowEntries p done .key :: ps => .flowEntries p done (.afterKey n) :: ps
  | .flowEntries p done _ :: ps => .flowEntries p ((n, .absent) :: done) .afterEntry :: ps

theorem deliver_length_le (n : Node String) (ps : List Place) :
    (deliver n ps).length ≤ ps.length := by
  fun_induction deliver n ps <;> simp_all
  omega

def fullTag? (handles : Table Tag) (handle : String) (suffix : Tag) : Option Tag :=
  if handle.isEmpty then some suffix else (handles.get? handle).map (· ++ suffix)

def begin? (handles : Table Tag) (block dashes : Bool) (p : Properties String)
    (ps : List Place) : Token → Option (List Place)
  | .alias name => if p.isEmpty then some (deliver (.alias name) ps) else none
  | .anchor name =>
      if p.anchor.isNone then some (.properties block dashes { p with anchor := some name } :: ps)
      else none
  | .tag handle suffix =>
      if p.tag.isNone then
        (fullTag? handles handle suffix).map fun t =>
          .properties block dashes { p with tag := some t } :: ps
      else none
  | .scalar plain text => some (deliver (.scalar p plain text) ps)
  | .openSequence => some (.flowItems p [] .item :: ps)
  | .openMapping => some (.flowEntries p [] .entry :: ps)
  | .blockSequence => if block then some (.blockItems p [] .afterItem :: ps) else none
  | .blockMapping => if block then some (.blockEntries p [] .entry :: ps) else none
  | .dash => if dashes then some (.dashItems p [] .item :: ps) else none
  | _ => none

def endsBlockNode (t : Token) : Bool := t = .key || t = .value || t = .blockEnd

def blockEntry? (p : Properties String) (done : List (Node String × Node String))
    (ps : List Place) : Token → Option (List Place)
  | .key => some (.blockEntries p done .key :: ps)
  | .blockEnd => some (deliver (.mapping p done.reverse) ps)
  | _ => none

def blockAfterKey? (p : Properties String) (done : List (Node String × Node String))
    (k : Node String) (ps : List Place) (t : Token) : Option (List Place) :=
  if t = .value then some (.blockEntries p done (.value k) :: ps)
  else blockEntry? p ((k, .absent) :: done) ps t

def flowAfterEntry? (p : Properties String) (done : List (Node String × Node String))
    (ps : List Place) : Token → Option (List Place)
  | .comma => some (.flowEntries p done .entry :: ps)
  | .closeMapping => some (deliver (.mapping p done.reverse) ps)
  | _ => none

def flowAfterKey? (p : Properties String) (done : List (Node String × Node String))
    (k : Node String) (ps : List Place) (t : Token) : Option (List Place) :=
  if t = .value then some (.flowEntries p done (.value k) :: ps)
  else flowAfterEntry? p ((k, .absent) :: done) ps t

def feed? (handles : Table Tag) (t : Token) (places : List Place) : Option (List Place) :=
  match places with
  | [] => none
  | .root none :: ps => begin? handles true false .empty (.root none :: ps) t
  | .root (some n) :: ps => if t = .textEnd then some (.root (some n) :: ps) else none
  | .properties block dashes p :: ps =>
      match begin? handles block dashes p ps t with
      | some ps => some ps
      | none => feed? handles t (deliver (.empty p) ps)
  | .blockItems p done .afterItem :: ps =>
      if t = .dash then some (.blockItems p done .item :: ps)
      else if t = .blockEnd then some (deliver (.sequence p done.reverse) ps)
      else none
  | .blockItems p done .item :: ps =>
      if t = .dash then some (.blockItems p (.absent :: done) .item :: ps)
      else if t = .blockEnd then some (deliver (.sequence p (.absent :: done).reverse) ps)
      else begin? handles true false .empty (.blockItems p done .item :: ps) t
  | .dashItems p done .afterItem :: ps =>
      if t = .dash then some (.dashItems p done .item :: ps)
      else feed? handles t (deliver (.sequence p done.reverse) ps)
  | .dashItems p done .item :: ps =>
      if t = .dash then some (.dashItems p (.absent :: done) .item :: ps)
      else if endsBlockNode t then
        feed? handles t (deliver (.sequence p (.absent :: done).reverse) ps)
      else begin? handles true false .empty (.dashItems p done .item :: ps) t
  | .blockEntries p done .entry :: ps => blockEntry? p done ps t
  | .blockEntries p done .key :: ps =>
      if endsBlockNode t then blockAfterKey? p done .absent ps t
      else begin? handles true true .empty (.blockEntries p done .key :: ps) t
  | .blockEntries p done (.afterKey k) :: ps => blockAfterKey? p done k ps t
  | .blockEntries p done (.value k) :: ps =>
      if endsBlockNode t then blockEntry? p ((k, .absent) :: done) ps t
      else begin? handles true true .empty (.blockEntries p done (.value k) :: ps) t
  | .flowItems p done .item :: ps =>
      if t = .closeSequence then some (deliver (.sequence p done.reverse) ps)
      else if t = .key then some (.flowPair .key :: .flowItems p done .item :: ps)
      else begin? handles false false .empty (.flowItems p done .item :: ps) t
  | .flowItems p done .afterItem :: ps =>
      if t = .comma then some (.flowItems p done .item :: ps)
      else if t = .closeSequence then some (deliver (.sequence p done.reverse) ps)
      else none
  | .flowPair .key :: ps =>
      -- Where the key is left out, the token that follows is passed over.
      if t = .value ∨ t = .comma ∨ t = .closeSequence then
        some (.flowPair (.afterKey .absent) :: ps)
      else begin? handles false false .empty (.flowPair .key :: ps) t
  | .flowPair (.afterKey k) :: ps =>
      if t = .value then some (.flowPair (.value k) :: ps)
      else feed? handles t (deliver (.mapping .empty [(k, .absent)]) ps)
  | .flowPair (.value k) :: ps =>
      if t = .comma ∨ t = .closeSequence then
        feed? handles t (deliver (.mapping .empty [(k, .absent)]) ps)
      else begin? handles false false .empty (.flowPair (.value k) :: ps) t
  | .flowEntries p done .entry :: ps =>
      if t = .closeMapping then some (deliver (.mapping p done.reverse) ps)
      else if t = .key then some (.flowEntries p done .key :: ps)
      else begin? handles false false .empty (.flowEntries p done .entry :: ps) t
  | .flowEntries p done .key :: ps =>
      if t = .value ∨ t = .comma ∨ t = .closeMapping then flowAfterKey? p done .absent ps t
      else begin? handles false false .empty (.flowEntries p done .key :: ps) t
  | .flowEntries p done (.afterKey k) :: ps => flowAfterKey? p done k ps t
  | .flowEntries p done (.value k) :: ps =>
      if t = .comma ∨ t = .closeMapping then flowAfterEntry? p ((k, .absent) :: done) ps t
      else begin? handles false false .empty (.flowEntries p done (.value k) :: ps) t
  | .flowEntries p done .afterEntry :: ps => flowAfterEntry? p done ps t
termination_by places.length
decreasing_by all_goals exact Nat.lt_of_le_of_lt (deliver_length_le _ _) (Nat.lt_succ_self _)

def node? (handles : Table Tag) (tokens : List Token) : Option (Node String) := do
  let places ← (tokens ++ [Token.textEnd]).foldlM (fun ps t => feed? handles t ps) [.root none]
  match places with
  | [.root node] => node
  | _ => none

end Place

end GameTimeline.Yaml
