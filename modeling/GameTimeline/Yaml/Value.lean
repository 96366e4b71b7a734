import GameTimeline.Json.Number
import GameTimeline.Text.Bytes
import GameTimeline.Yaml.Node.Anchors
import GameTimeline.Yaml.Scalar.Typing

namespace GameTimeline.Yaml

inductive Value where
  | null
  | bool (b : Bool)
  | int (n : Int)
  | float (x : Float)
  | text (s : String)
  | sequence (items : List Value)
  | mapping (entries : List (Value × Value))
  | tagged (tag : String) (v : Value)
  deriving Repr, Inhabited

namespace Value

mutual

def same : Value → Value → Bool
  | .null, .null => true
  | .bool a, .bool b => a == b
  | .int a, .int b => a == b
  | .float a, .float b => a == b || (a.isNaN && b.isNaN)
  | .text a, .text b => a == b
  | .sequence as, .sequence bs => sameItems as bs
  | .mapping as, .mapping bs => as.length == bs.length && hasEntries as bs
  | .tagged t a, .tagged u b => t == u && a.same b
  | _, _ => false

def sameItems : List Value → List Value → Bool
  | [], [] => true
  | a :: as, b :: bs => a.same b && sameItems as bs
  | _, _ => false

def hasEntries : List (Value × Value) → List (Value × Value) → Bool
  | [], _ => true
  | (k, v) :: r, bs => bs.any (fun e => k.same e.1 && v.same e.2) && hasEntries r bs

end

def hasRepeat : List Value → Bool
  | [] => false
  | v :: r => r.any v.same || hasRepeat r

def ofPlain? (s : String) : Option Value :=
  if s.isEmpty ∨ Scalar.isNull s then some .null
  else match Scalar.bool? s with
    | some b => some (.bool b)
    | none =>
        match Scalar.integer? s.toList with
        | some n =>
            match Scalar.width n with
            | .word => some (.int n)
            | .wide => none
            | .none => some (((Scalar.float? s.toList).map .float).getD (.text s))
        | none =>
            if Scalar.hasSpareZero s.toList then some (.text s)
            else some (((Scalar.float? s.toList).map .float).getD (.text s))

def ofUntagged? (plain : Bool) (s : String) : Option Value :=
  if plain then ofPlain? s else some (.text s)

def typeTag (name : String) : Tag := Text.utf8 ("tag:yaml.org,2002:" ++ name)

def ofTyped? (tag : Tag) (s : String) : Option Value :=
  if tag = typeTag "bool" then (Scalar.bool? s).map .bool
  else if tag = typeTag "int" then
    (Scalar.integer? s.toList).bind fun n =>
      match Scalar.width n with
      | .word => some (.int n)
      | _ => none
  else if tag = typeTag "float" then (Scalar.float? s.toList).map .float
  else if tag = typeTag "null" then if Scalar.isNull s then some .null else none
  else some (.text s)

def dropMark {α : Type} [DecidableEq α] (mark : α) (l : List α) : List α :=
  match l with
  | c :: d :: r => if c = mark then d :: r else c :: d :: r
  | l => l

def isLocal (tag : Tag) : Bool := tag.head? = some 0x21

def localName? (tag : Tag) : Option String :=
  if isLocal tag then
    (Text.ofUtf8? (dropMark 0x21 tag)).map fun s => String.ofList (dropMark '!' s.toList)
  else none

def ofScalar? (tag : Option Tag) (plain : Bool) (s : String) : Option Value :=
  match tag with
  | none => ofUntagged? plain s
  | some t =>
      match localName? t with
      | some name => (ofUntagged? plain s).map (.tagged name)
      | none => if isLocal t then ofUntagged? plain s else ofTyped? t s

def withTag (tag : Option Tag) (v : Value) : Value :=
  match tag.bind localName? with
  | some name => .tagged name v
  | none => v

def ofEntries? (entries : List (Value × Value)) : Option Value :=
  if hasRepeat (entries.map (·.1)) then none else some (.mapping entries)

abbrev Reader := StateT Nat Option

def follow (d : Linked) : Node Nat → Reader (Node Nat)
  | .alias a => do
      let left ← get
      if left = 0 then failure
      else do
        set (left - 1)
        (d.target? a).elim failure pure
  | n => pure n

def read (d : Linked) (inside : Option (Node Nat → Reader Value)) (n : Node Nat) : Reader Value := do
  match ← follow d n with
  | .scalar p plain s => (ofScalar? p.tag plain s).elim failure pure
  | .sequence p items => do
      let inside ← inside.elim failure pure
      let vs ← items.mapM inside
      pure (withTag p.tag (.sequence vs))
  | .mapping p entries => do
      let inside ← inside.elim failure pure
      let es ← entries.mapM fun (k, n) => do
        let k ← inside k
        let v ← inside n
        pure (k, v)
      let v ← (ofEntries? es).elim failure pure
      pure (withTag p.tag v)
  | .alias _ => failure

def readWithin (d : Linked) : Nat → Node Nat → Reader Value
  | 0 => read d none
  | depth + 1 => read d (some (readWithin d depth))

def depthLimit : Nat := 128

def ofNode? (n : Node String) : Option Value := do
  let d ← Linked.ofNode? n
  let (v, _) ← (readWithin d depthLimit d.root).run d.jumpLimit
  pure v

def keyText? : Value → Option String
  | .text s => some s
  | .bool b => some (if b then "true" else "false")
  | .int n => some (Text.showInt n)
  | .float x => if x.isFinite then some (String.ofList (Number.float x).chars) else none
  | _ => none

mutual

def toJson? : Value → Option Json
  | .null => some .null
  | .bool b => some (.bool b)
  | .int n => some (.int n)
  | .float x => some (.float x)
  | .text s => some (.str s)
  | .sequence items => (itemsToJson? items).map .arr
  | .mapping entries => (entriesToJson? [] entries).map .obj
  | .tagged t v => v.toJson?.map fun j => .obj [("!" ++ t, j)]

def itemsToJson? : List Value → Option (List Json)
  | [] => some []
  | v :: r => do
      let j ← v.toJson?
      let js ← itemsToJson? r
      pure (j :: js)

def entriesToJson? :
    List (String × Json) → List (Value × Value) → Option (List (String × Json))
  | done, [] => some done
  | done, (k, v) :: r => do
      let name ← k.keyText?
      let j ← v.toJson?
      entriesToJson? (Table.insertEntry name j done) r

end

end Value

end GameTimeline.Yaml
