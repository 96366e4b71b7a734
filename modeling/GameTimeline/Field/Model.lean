import GameTimeline.Field.Domain
import GameTimeline.Field.Error

namespace GameTimeline

inductive Monotonicity where
  | free
  | nonDecreasing (bound : Option Int64)
  | boundedDelta (bound : Int64)
  deriving DecidableEq, Repr, Inhabited

namespace Monotonicity

def bound? : Monotonicity → Option Int64
  | .free => none
  | .nonDecreasing b => b
  | .boundedDelta b => some b

end Monotonicity

structure FieldModel where
  name : String
  domain : Domain
  monotonicity : Monotonicity
  window : Nat
  majority : Nat
  maxGap : Nat
  minConfidence : Option Float32
  terminal : Option FieldValue
  deriving Repr, Inhabited

inductive Verdict where
  | accept
  | reject
  | suspect
  deriving DecidableEq, Repr, Inhabited

def simpleMajority (window : Nat) : Nat := window / 2 + 1

namespace FieldModel

def defaultWindow : Nat := 3

def defaultMaxGap : Nat := 300

def new (name : String) (domain : Domain) (monotonicity : Monotonicity) : FieldModel :=
  ⟨name, domain, monotonicity, defaultWindow, simpleMajority defaultWindow, defaultMaxGap, none,
    none⟩

def counter (name : String) : FieldModel := new name .nonNegative (.nonDecreasing none)

def boundedDelta (name : String) (d : Int64) : FieldModel := new name .nonNegative (.boundedDelta d)

def terminalFlag (name : String) : FieldModel :=
  { new name .flag (.nonDecreasing none) with terminal := some (.flag true) }

def normalize (m : FieldModel) (v : FieldValue) : Option FieldValue := m.domain.normalize v

def isTerminal (m : FieldModel) (v : FieldValue) : Bool := m.terminal = some v

def repeatedLabel? (seen : List String) : List String → Option String
  | [] => none
  | v :: r => if seen.contains v then some v else repeatedLabel? (v :: seen) r

def checkDomain (m : FieldModel) : Except RuleError Unit :=
  match m.domain with
  | .bounded min max => if max < min then .error (.emptyRange m.name min max) else .ok ()
  | .labels [] => .error (.noLabels m.name)
  | .labels values =>
      match repeatedLabel? [] values with
      | some v => .error (.repeatedLabel m.name v)
      | none => .ok ()
  | _ => .ok ()

def checkBound (m : FieldModel) (d : Int64) : Except RuleError Unit :=
  if ¬ m.domain.isNumeric then .error (.unorderedDomain m.name)
  else if d < 0 then .error (.negativeDeltaBound m.name d)
  else .ok ()

def checkMonotonicity (m : FieldModel) : Except RuleError Unit :=
  match m.monotonicity with
  | .free => .ok ()
  | .nonDecreasing none =>
      if m.domain.isOrdered then .ok () else .error (.unorderedDomain m.name)
  | .nonDecreasing (some d) => checkBound m d
  | .boundedDelta d => checkBound m d

def checkWindow (m : FieldModel) : Except RuleError Unit :=
  if m.window = 0 ∨ m.majority = 0 ∨ m.window < m.majority then
    .error (.invalidWindow m.name m.window m.majority)
  else .ok ()

def checkConfidence (m : FieldModel) : Except RuleError Unit :=
  match m.minConfidence with
  | none => .ok ()
  | some c => if 0 ≤ c ∧ c ≤ 1 then .ok () else .error (.invalidConfidence m.name c)

def checkTerminal (m : FieldModel) : Except RuleError Unit :=
  match m.terminal with
  | none => .ok ()
  | some t =>
      if m.normalize t = some t then .ok () else .error (.terminalOutsideDomain m.name t)

def validate (m : FieldModel) : Except RuleError Unit := do
  m.checkDomain
  m.checkMonotonicity
  m.checkWindow
  m.checkConfidence
  m.checkTerminal

def allowance (d : Int64) (elapsed : Nat) : Nat := min (d.toInt.toNat * elapsed) Text.maxWord

def withinBound (previous candidate : Int) (d : Int64) (elapsed : Nat) : Bool :=
  (candidate - previous).natAbs ≤ allowance d elapsed

def judge (m : FieldModel) (p c : Int) (elapsed : Nat) : Verdict :=
  let tolerable := fun d => m.maxGap < elapsed || withinBound p c d elapsed
  match m.monotonicity with
  | .free => .accept
  | .nonDecreasing bound =>
      if c < p then .reject
      else match bound with
        | none => .accept
        | some d => if tolerable d then .accept else .suspect
  | .boundedDelta d => if tolerable d then .accept else .suspect

def classify (m : FieldModel) (previous : Option FieldValue) (candidate : FieldValue)
    (elapsed : Nat) : Verdict :=
  match m.normalize candidate with
  | none => .reject
  | some c =>
      match previous with
      | none => .accept
      | some p =>
          match m.domain.rank? p, m.domain.rank? c with
          | some rp, some rc => m.judge rp rc elapsed
          | _, _ => .accept

end FieldModel

end GameTimeline
